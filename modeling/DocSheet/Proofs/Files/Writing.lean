import DocSheet.Proofs.Files.Places

/-!
# Files behind a writing

A file that is written takes no directory from the tree, so every path that leads
somewhere leads there still, and what it leads to is the same at every other place. The
path that the file was written under leads to the file.
-/

namespace DocSheet.FileTree

variable {tree : FileTree} {written : Location}

theorem find?_put_directory (h : tree.find? written ≠ some .directory) {location : Location}
    (hdirectory : tree.find? location = some .directory) (bytes : List UInt8) :
    (tree.put written bytes).find? location = some .directory := by
  have hne : location ≠ written := by
    rintro rfl
    exact h hdirectory
  rw [find?_put_of_ne tree hne, hdirectory]

theorem isSome_find?_put {location : Location} (h : (tree.find? location).isSome = true)
    (bytes : List UInt8) : ((tree.put written bytes).find? location).isSome = true := by
  by_cases hroot : location = []
  · rw [find?, if_pos hroot]
    rfl
  · by_cases hne : location = written
    · rw [← hne, find?_put_self tree hroot]
      rfl
    · rwa [find?_put_of_ne tree hne]

theorem step_put (h : tree.find? written ≠ some .directory) {location next : Location}
    {piece : List Char} (hstep : tree.step location piece = .ok next) (bytes : List UInt8) :
    (tree.put written bytes).step location piece = .ok next := by
  unfold step at hstep
  split at hstep
  · simp at hstep
  · simp at hstep
  · next hdirectory =>
    rw [step, find?_put_directory h hdirectory]
    split at hstep
    · next hstay => simpa only [if_pos hstay] using hstep
    · next hstay =>
      split at hstep
      · next hup => simpa only [if_neg hstay, if_pos hup] using hstep
      · next hup =>
        split at hstep
        · next hsome =>
          simpa only [if_neg hstay, if_neg hup, if_pos (isSome_find?_put hsome bytes)] using hstep
        · simp at hstep

theorem follow_put (h : tree.find? written ≠ some .directory) {location reached : Location}
    {pieces : List (List Char)} (hfollow : tree.follow location pieces = .ok reached)
    (bytes : List UInt8) :
    (tree.put written bytes).follow location pieces = .ok reached := by
  induction pieces generalizing location with
  | nil => exact hfollow
  | cons piece more ih =>
    rw [follow] at hfollow
    cases hstep : tree.step location piece with
    | error fault => simp [hstep] at hfollow
    | ok next =>
      rw [hstep] at hfollow
      rw [follow, step_put h hstep bytes]
      exact ih hfollow

/-- A path that leads somewhere leads there behind any writing. -/
theorem resolve_put (h : tree.find? written ≠ some .directory) {working reached : Location}
    {path : Path} (hresolve : tree.resolve working path = .ok reached) (bytes : List UInt8) :
    (tree.put written bytes).resolve working path = .ok reached := by
  unfold resolve at hresolve ⊢
  split at hresolve
  · simp at hresolve
  · next hempty =>
    rw [if_neg hempty]
    exact follow_put h hresolve bytes

theorem follow_append_singleton {location between : Location} {pieces : List (List Char)}
    (h : tree.follow location pieces = .ok between) (piece : List Char) :
    tree.follow location (pieces ++ [piece]) = tree.step between piece := by
  induction pieces generalizing location with
  | nil =>
    obtain rfl : location = between := by simpa [follow] using h
    rw [List.nil_append, follow]
    cases tree.step location piece <;> rfl
  | cons first more ih =>
    rw [follow] at h
    rw [List.cons_append, follow]
    cases hstep : tree.step location first with
    | error fault => simp [hstep] at h
    | ok next =>
      rw [hstep] at h
      exact ih h

theorem find?_put_target {working : Location} {path : Path}
    (h : tree.target working path = .ok written) (bytes : List UInt8) :
    (tree.put written bytes).find? written = some (.file bytes) := by
  obtain ⟨parent, last, rfl, -⟩ := exists_of_target_eq_ok h
  have hroot : parent ++ [last] ≠ [] := by simp
  exact find?_put_self tree hroot bytes

/-- A file that is written under a path is read under it. -/
theorem read_put_target {working : Location} {path : Path}
    (h : tree.target working path = .ok written) (bytes : List UInt8) :
    (tree.put written bytes).read working path = .ok bytes := by
  have hfile := find?_put_target h bytes
  have hnonempty := isEmpty_eq_false_of_target h
  obtain ⟨parent, last, rfl, hfollow, hpieces, ⟨hempty, hhere, hup⟩, hparent, hfree⟩ :=
    exists_of_target_eq_ok h
  have hstep : (tree.put (parent ++ [last]) bytes).step parent last = .ok (parent ++ [last]) := by
    rw [step, find?_put_directory hfree hparent]
    simp [hempty, hhere, hup, hfile]
  have hresolve : (tree.put (parent ++ [last]) bytes).resolve working path =
      .ok (parent ++ [last]) := by
    rw [resolve, hnonempty, ← hpieces, follow_append_singleton (follow_put hfree hfollow bytes)]
    exact hstep
  rw [read, hresolve]
  simp only [hfile]

end DocSheet.FileTree
