import Exemplar.Algebra.Evaluation

/-!
# Tables of solutions

The solutions of a pattern as a table with one column for each variable. Solutions come in no
particular order, and neither do the rows; a table that is listed has them in the order of their
texts, so that the list depends on the solutions only.
-/

namespace Exemplar

/-- Columns and rows; a cell is empty where a variable is not bound. -/
structure Table where
  header : List Variable
  rows : List (List (Option Term))

/-- The order of rows that are listed: cell by cell, a prefix first, empty cells as empty texts. -/
def rowLe : List String → List String → Bool
  | [], _ => true
  | _ :: _, [] => false
  | a :: as, b :: bs => if a = b then rowLe as bs else a < b

namespace Table

def cellText : Option Term → String
  | none => ""
  | some t => t.text

def sortRows (rows : List (List (Option Term))) : List (List (Option Term)) :=
  let keyed := rows.map fun row => (row.map cellText, row)
  (keyed.mergeSort fun a b => rowLe a.1 b.1).map Prod.snd

/-- The row of a solution. A variable that is listed again has an empty cell there. -/
def rowOf : List Variable → Solution → List (Option Term)
  | [], _ => []
  | v :: vs, s => s.get? v :: rowOf vs (s.filter (·.1 ≠ v))

/-- The columns of the solutions of a pattern: those of a projection, else all that are bound. -/
def columns (p : Pattern) (found : List Solution) : List Variable :=
  match p with
  | .project _ vs => vs
  | _ =>
    let names := (found.flatMap fun s => s.domain.map (·.name)).eraseDups
    (names.mergeSort fun a b => a ≤ b).map (⟨·⟩)

/-- The table of the solutions of a pattern, a row for each of them as they come. -/
def ofSolutions (p : Pattern) (found : List Solution) : Table :=
  let header := columns p found
  ⟨header, found.map (rowOf header)⟩

/-- The table with its rows in the order of their texts. -/
def sorted (t : Table) : Table := { t with rows := sortRows t.rows }

/-- The list of the solutions of a pattern in a graph. -/
def evaluate (g : Graph) (p : Pattern) : Except EvaluationError Table := do
  return (ofSolutions p (← p.evaluate g [])).sorted

/-- The bindings of a row. -/
def bindings : List Variable → List (Option Term) → Solution
  | v :: vs, some t :: row => (v, t) :: bindings vs row
  | _ :: vs, none :: row => bindings vs row
  | _, _ => []

def solutions (t : Table) : List Solution := t.rows.map (bindings t.header)

end Table

end Exemplar
