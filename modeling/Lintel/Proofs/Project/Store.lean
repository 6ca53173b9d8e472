import Lintel.Project.Store
import Lintel.Proofs.Except

/-!
# Lawful file systems

What is relied on where files are changed: a write reaches one place only, and a failed
access leaves everything as it was. Stores keep these laws.
-/

namespace Lintel

/-- A file system in which paths denote places, and places hold bytes. A write that succeeds
changes the bytes at the place of its path; one that fails changes nothing. No write changes
what paths denote. -/
class LawfulFileSystem (σ : Type) [FileSystem σ] where
  Place : Type
  place : σ → String → Place
  bytes? : σ → Place → Option ByteArray
  bytes?_of_read {files : σ} {path text : String} :
    FileSystem.read files path = .ok text → bytes? files (place files path) = some text.toUTF8
  bytes?_of_written {files after : σ} {path text : String} :
    FileSystem.write files path text = (after, none) →
      bytes? after (place files path) = some text.toUTF8
  bytes?_elsewhere {files after : σ} {path text : String} {p : Place} :
    FileSystem.write files path text = (after, none) → place files path ≠ p →
      bytes? after p = bytes? files p
  bytes?_of_failed {files after : σ} {path text e : String} (p : Place) :
    FileSystem.write files path text = (after, some e) → bytes? after p = bytes? files p
  place_of_write {files after : σ} {path text : String} {failure : Option String}
    (other : String) :
    FileSystem.write files path text = (after, failure) → place after other = place files other

namespace Store

variable {store after : Store} {path text : String}

private theorem toUTF8_of_fromUTF8? {bytes : ByteArray} (h : String.fromUTF8? bytes = some text) :
    text.toUTF8 = bytes := by
  unfold String.fromUTF8? at h
  split at h
  · cases h
    rfl
  · cases h

private theorem bytes_of_read (h : store.read path = .ok text) :
    (store.file? path).map (·.bytes) = some text.toUTF8 := by
  unfold read at h
  split at h
  next file hfile =>
    split at h
    next other hbytes =>
      cases h
      rw [hfile, toUTF8_of_fromUTF8? hbytes]
      rfl
    · cases h
  · cases h

private theorem lookup_replace (files : List (String × StoredFile)) (path other : String)
    (file : StoredFile) :
    (files.map fun entry => if entry.1 == path then (path, file) else entry).lookup other =
      (files.lookup other).map fun old => if other = path then file else old := by
  induction files with
  | nil => rfl
  | cons entry files ih =>
    obtain ⟨key, old⟩ := entry
    have hkey : (if key == path then (path, file) else (key, old)) =
        (key, if key = path then file else old) := by
      by_cases h : key = path <;> simp [h]
    rw [List.map_cons, hkey, List.lookup_cons, List.lookup_cons, ih]
    cases h : other == key with
    | true => simp [beq_iff_eq.mp h]
    | false => rfl

private theorem file?_of_write? (h : store.write? path text = some after) (other : String) :
    after.file? other = if other = path then some ⟨text.toUTF8, true⟩ else store.file? other := by
  unfold write? at h
  split at h
  next hnone =>
    split at h
    · cases h
    · cases h
      rw [file?, file?, List.lookup_append, List.lookup_cons, List.lookup_nil]
      by_cases hother : other = path
      · rw [file?] at hnone
        simp [hother, hnone]
      · simp [hother, beq_eq_false_iff_ne.mpr hother]
  next old hold =>
    split at h
    · cases h
      rw [file?, file?, lookup_replace]
      by_cases hother : other = path
      · rw [file?] at hold
        simp [hother, hold]
      · simp [hother]
    · cases h

private theorem write?_of_written (h : FileSystem.write store path text = (after, none)) :
    store.write? path text = some after := by
  simp only [FileSystem.write] at h
  split at h
  next hwrite =>
    cases h
    exact hwrite
  · cases h

private theorem eq_of_failed {e : String} (h : FileSystem.write store path text = (after, some e)) :
    after = store := by
  simp only [FileSystem.write] at h
  split at h
  · cases h
  · cases h
    rfl

instance : LawfulFileSystem Store where
  Place := String
  place _ path := path
  bytes? store path := (store.file? path).map (·.bytes)
  bytes?_of_read h := bytes_of_read (mapError_eq_ok_iff.mp h)
  bytes?_of_written h := by
    rw [file?_of_write? (write?_of_written h), if_pos rfl]
    rfl
  bytes?_elsewhere h hp := by
    rw [file?_of_write? (write?_of_written h), if_neg (Ne.symm hp)]
  bytes?_of_failed p h := by rw [eq_of_failed h]
  place_of_write _ _ := rfl

end Store

end Lintel
