import Exemplar.Iri.Host

/-!
# Language tags

A tag is a list of subtags with hyphens between them: a language, and what narrows it down, in a
fixed order. The subtags are told apart by their length. They are of letters only, so regions and
variants that are written with digits are not known. The case of a tag does not matter; it is lower
case in what follows.
-/

namespace Exemplar.LanguageTag

def isTagChar (c : Char) : Bool := Iri.isLetter c || c == '-'

/-- One to eight letters. -/
def isSubtag (subtag : List Char) : Bool :=
  !subtag.isEmpty && subtag.length ≤ 8 && subtag.all Iri.isLetter

/-- Leaves out up to a number of subtags that have a length. -/
def skip (length : Nat) : Nat → List (List Char) → List (List Char)
  | count + 1, subtag :: rest =>
    if subtag.length = length then skip length count rest else subtag :: rest
  | _, subtags => subtags

/-- Leaves out what may follow a language: up to three extended languages, a script, a region, and
any number of variants. Only a language of two or three letters can be extended. -/
def skipSpecifics (language : List Char) (subtags : List (List Char)) : List (List Char) :=
  let subtags := if language.length < 4 then skip 3 3 subtags else subtags
  (skip 2 1 (skip 4 1 subtags)).dropWhile (5 ≤ ·.length)

/-- Whether subtags go on in an extension. A single letter opens the next extension and needs a
longer subtag after it; an `x` opens the part for private use, which is not empty. -/
def continuesExtension : List (List Char) → Bool
  | [] => true
  | [subtag] => 2 ≤ subtag.length
  | subtag :: next :: rest =>
    if 2 ≤ subtag.length then continuesExtension (next :: rest)
    else subtag == ['x'] || (2 ≤ next.length && continuesExtension rest)

/-- Whether subtags are extensions and a part for private use, or nothing. -/
def isExtension : List (List Char) → Bool
  | [] => true
  | first :: rest => first.length == 1 && continuesExtension (first :: rest)

/-- Tags that have been registered as a whole and do not follow the order of subtags. -/
def registered : List String :=
  ["en-gb-oed", "i-ami", "i-bnn", "i-default", "i-enochian", "i-hak", "i-klingon", "i-lux",
    "i-mingo", "i-navajo", "i-pwn", "i-tao", "i-tay", "i-tsu", "sgn-be-fr", "sgn-be-nl",
    "sgn-ch-de"]

/-- Whether subtags are a language and what narrows it down, or are all for private use. -/
def isRegular : List (List Char) → Bool
  | ['x'] :: rest => !rest.isEmpty
  | language :: rest => 2 ≤ language.length && isExtension (skipSpecifics language rest)
  | [] => false

def isWellFormed (tag : List Char) : Bool :=
  let subtags := Iri.splitAt '-' tag
  subtags.all isSubtag && (isRegular subtags || registered.contains (String.ofList tag))

end Exemplar.LanguageTag
