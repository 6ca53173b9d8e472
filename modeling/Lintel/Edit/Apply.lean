import Lintel.Edit.Basic

/-!
# Applying fixes

All edits refer to the unmodified source. They are first checked against it, in
the order given, and then carried out from the highest offset down, so that the
offsets of those still to come stay valid. Several fixes are applied together
only if no edit of one overlaps an edit of another.
-/

namespace Lintel

def TextEdit.outOfBounds (edit : TextEdit) (text : String) : FixError :=
  .outOfBounds edit.start edit.stop (Text.byteLength text)

def TextEdit.fits (edit : TextEdit) (text : String) : Bool :=
  edit.stop ≤ Text.byteLength text && Text.isBoundary text edit.start
    && Text.isBoundary text edit.stop

def TextEdit.apply (text : String) (edit : TextEdit) : Except FixError String :=
  match Text.upTo? text edit.start, Text.from? text edit.stop with
  | some before, some after => .ok (before ++ edit.replacement ++ after)
  | _, _ => .error (edit.outOfBounds text)

def TextEdit.descending (edits : List TextEdit) : List TextEdit :=
  edits.mergeSort fun a b => b.precedes a

/-- Checks edits against a source in the order given, then carries them out from the
highest offset down. -/
def applyEdits (source : String) (edits : List TextEdit) : Except FixError String :=
  match edits.find? fun e => !e.fits source with
  | some e => .error (e.outOfBounds source)
  | none => (TextEdit.descending edits).foldlM TextEdit.apply source

def applyFix (source : String) (fix : Fix) : Except FixError String :=
  applyEdits source fix.edits

def Fix.conflicts (a b : Fix) : Bool :=
  a.edits.any fun ea => b.edits.any fun eb => ea.overlaps eb

/-- The first two fixes of a list that conflict, by the place of the earlier one. -/
def firstConflict : List Fix → Option (Fix × Fix)
  | [] => none
  | a :: rest =>
    match rest.find? fun b => a.conflicts b with
    | some b => some (a, b)
    | none => firstConflict rest

def applyFixes (source : String) (fixes : List Fix) : Except FixError String :=
  match firstConflict fixes with
  | some (a, b) => .error (.conflict a.description b.description)
  | none => applyEdits source (fixes.flatMap (·.edits))

end Lintel
