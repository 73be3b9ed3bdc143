import DocSheet.Files.Tree

/-!
# Places that paths spell

No link stands in a file tree, so a path that leads anywhere leads to the place that its
components spell, whatever the tree. Paths of the same components spell one place.
The converse holds where neither path has dots for pieces and both start alike.
-/

namespace DocSheet

namespace Path

/-- Where a component leads from a location. -/
def Component.move (location : Location) : Component → Location
  | root => []
  | here => location
  | up => location.dropLast
  | name text => location ++ [text]

/-- The place that a path spells. -/
def place (working : Location) (path : Path) : Location :=
  path.components.foldl Component.move working

/-- Where pieces behind the start of a path lead from a location. -/
def descend (location : Location) (pieces : List (List Char)) : Location :=
  (pieces.filterMap Component.ofInner?).foldl Component.move location

theorem descend_append (location : Location) (first second : List (List Char)) :
    descend location (first ++ second) = descend (descend location first) second := by
  rw [descend, List.filterMap_append, List.foldl_append]
  rfl

theorem place_eq_of_same {path other : Path} (h : path.same other = true)
    (working : Location) : path.place working = other.place working := by
  rw [place, of_decide_eq_true h, place]

/-! ## The start of a path -/

theorem isEmpty_eq_false_iff {path : Path} :
    path.isEmpty = false ↔ path.text.toList ≠ [] := by
  rw [isEmpty, Ne, String.toList_eq_nil_iff, ← Bool.not_eq_true, String.isEmpty_iff]

def isAbsolute (path : Path) : Bool :=
  path.text.toList.head? = some '/'

theorem startOf_eq (working : Location) (path : Path) :
    FileTree.startOf working path = if path.isAbsolute then [] else working := by
  simp [FileTree.startOf, isAbsolute]

/-- An absolute path has an empty piece first, and another piece behind it. -/
theorem exists_pieces {path : Path} (h : path.isEmpty = false) :
    ∃ first more, path.pieces = first :: more ∧ first :: more ≠ [[]] ∧
      (path.isAbsolute = true ↔ first = []) := by
  have hnil := isEmpty_eq_false_iff.1 h
  obtain ⟨c, rest, htext⟩ := List.exists_cons_of_ne_nil hnil
  obtain ⟨piece, later, hrest⟩ := List.exists_cons_of_ne_nil (Text.pieces_ne_nil '/' rest)
  rw [isAbsolute, pieces, htext]
  by_cases hc : c = '/'
  · exact ⟨[], piece :: later, by rw [Text.pieces, if_pos hc, hrest], by simp, by simp [hc]⟩
  · exact ⟨c :: piece, later, by rw [Text.pieces, if_neg hc, hrest], by simp, by simp [hc]⟩

theorem components_eq {path : Path} {first : List Char} {more : List (List Char)}
    (hpieces : path.pieces = first :: more) (hlone : first :: more ≠ [[]]) :
    path.components =
      (if first = [] then .root else if first = ['.'] then .here else .ofPiece first) ::
        more.filterMap Component.ofInner? := by
  unfold components
  split
  · next hnil => simp [hnil] at hpieces
  · next hempty => exact absurd (hpieces.symm.trans hempty) hlone
  · next found rest _ hfound =>
    obtain ⟨rfl, rfl⟩ := List.cons.inj (hpieces.symm.trans hfound)
    rfl

/-- The first piece of a path says where it starts, and then counts like the rest. -/
theorem place_eq_descend {path : Path} (h : path.isEmpty = false) (working : Location) :
    path.place working = descend (FileTree.startOf working path) path.pieces := by
  obtain ⟨first, more, hpieces, hlone, habsolute⟩ := exists_pieces h
  rw [place, components_eq hpieces hlone, startOf_eq, hpieces, descend, List.filterMap_cons]
  by_cases hfirst : first = []
  · rw [if_pos hfirst, if_pos (habsolute.2 hfirst), hfirst]
    rfl
  · have hstart : path.isAbsolute ≠ true := fun htrue ↦ hfirst (habsolute.1 htrue)
    rw [if_neg hfirst, if_neg hstart]
    by_cases hhere : first = ['.']
    · rw [if_pos hhere, hhere]
      rfl
    · rw [if_neg hhere, Component.ofInner?, if_neg (by simp [hfirst, hhere])]

/-! ## Plain paths -/

/-- No piece of the path is `.` or `..`. -/
def Plain (path : Path) : Prop :=
  ∀ piece ∈ path.pieces, piece ≠ ['.'] ∧ piece ≠ ['.', '.']

/-- The pieces between the slashes of a path that are not empty. -/
def names (path : Path) : List (List Char) :=
  path.pieces.filter (· ≠ [])

theorem ofPiece_of_ne {piece : List Char} (h : piece ≠ ['.', '.']) :
    Component.ofPiece piece = .name piece :=
  if_neg h

theorem ofInner?_of_ne {piece : List Char} (hempty : piece ≠ []) (hhere : piece ≠ ['.'])
    (hup : piece ≠ ['.', '.']) : Component.ofInner? piece = some (.name piece) := by
  rw [Component.ofInner?, if_neg (not_or.2 ⟨hempty, hhere⟩), ofPiece_of_ne hup]

theorem filterMap_ofInner? {pieces : List (List Char)}
    (h : ∀ piece ∈ pieces, piece ≠ ['.'] ∧ piece ≠ ['.', '.']) :
    pieces.filterMap Component.ofInner? = (pieces.filter (· ≠ [])).map .name := by
  induction pieces with
  | nil => rfl
  | cons piece more ih =>
    have hpiece := h piece List.mem_cons_self
    have hmore := ih fun other hother ↦ h other (List.mem_cons_of_mem _ hother)
    by_cases hempty : piece = []
    · rw [List.filterMap_cons, hempty]
      simpa [Component.ofInner?] using hmore
    · rw [List.filterMap_cons_some (ofInner?_of_ne hempty hpiece.1 hpiece.2), hmore]
      simp [hempty]

theorem Plain.components_eq {path : Path} (h : path.Plain) :
    path.components = (if path.isAbsolute then [.root] else []) ++ path.names.map .name := by
  cases hempty : path.isEmpty with
  | true =>
    have htext : path.text = "" := String.isEmpty_iff.1 hempty
    simp [components, isAbsolute, names, pieces, htext, Text.pieces]
  | false =>
    obtain ⟨first, more, hpieces, hlone, habsolute⟩ := exists_pieces hempty
    have hplain := h
    rw [Plain, hpieces] at hplain
    have hmore := filterMap_ofInner? fun piece hpiece ↦
      hplain piece (List.mem_cons_of_mem first hpiece)
    rw [Path.components_eq hpieces hlone, hmore, names, hpieces]
    by_cases hfirst : first = []
    · simp [hfirst, habsolute.2 hfirst]
    · have hstart : path.isAbsolute = false :=
        Bool.eq_false_iff.2 fun htrue ↦ hfirst (habsolute.1 htrue)
      obtain ⟨hhere, hup⟩ := hplain first List.mem_cons_self
      simp [hfirst, hhere, hstart, ofPiece_of_ne hup]

theorem foldl_move_names (location : Location) (names : List (List Char)) :
    (names.map Component.name).foldl Component.move location = location ++ names := by
  induction names generalizing location with
  | nil => simp
  | cons name names ih =>
    rw [List.map_cons, List.foldl_cons, ih]
    simp [Component.move]

theorem Plain.place_eq {path : Path} (h : path.Plain) (working : Location) :
    path.place working = (if path.isAbsolute then [] else working) ++ path.names := by
  rw [place, h.components_eq, List.foldl_append, foldl_move_names]
  cases path.isAbsolute <;> rfl

/-- Plain paths that start alike are the same when they spell one place. -/
theorem Plain.same_iff_place_eq {path other : Path} (hpath : path.Plain)
    (hother : other.Plain) (hstart : path.isAbsolute = other.isAbsolute)
    (working : Location) :
    path.same other = true ↔ path.place working = other.place working := by
  constructor
  · intro hsame
    exact place_eq_of_same hsame working
  · intro hplace
    rw [hpath.place_eq, hother.place_eq, hstart, List.append_cancel_left_eq] at hplace
    rw [same, decide_eq_true_iff, hpath.components_eq, hother.components_eq, hstart, hplace]

end Path

/-! ## Paths that lead somewhere -/

namespace FileTree

open DocSheet.Path

theorem step_eq_ok {tree : FileTree} {location next : Location} {piece : List Char}
    (h : tree.step location piece = .ok next) : next = descend location [piece] := by
  unfold step at h
  split at h
  · simp at h
  · simp at h
  · split at h
    · next hstay =>
      obtain rfl : location = next := by simpa using h
      rcases hstay with rfl | rfl <;> rfl
    · next hstay =>
      have hinner : Component.ofInner? piece = some (.ofPiece piece) := by
        rw [Component.ofInner?, if_neg hstay]
      rw [descend, List.filterMap_cons_some hinner]
      split at h
      · next hup =>
        obtain rfl : location.dropLast = next := by simpa using h
        simp [hup, Component.ofPiece, Component.move]
      · next hup =>
        split at h
        · obtain rfl : location ++ [piece] = next := by simpa using h
          simp [ofPiece_of_ne hup, Component.move]
        · simp at h

theorem follow_eq_ok {tree : FileTree} {location reached : Location}
    {pieces : List (List Char)} (h : tree.follow location pieces = .ok reached) :
    reached = descend location pieces := by
  induction pieces generalizing location with
  | nil =>
    obtain rfl : location = reached := by simpa [follow] using h
    rfl
  | cons piece more ih =>
    rw [follow] at h
    cases hstep : tree.step location piece with
    | error fault => simp [hstep] at h
    | ok next =>
      rw [hstep] at h
      rw [ih h, step_eq_ok hstep, ← descend_append, List.singleton_append]

/-- A path that leads to a location leads to the place that it spells. -/
theorem resolve_eq_ok {tree : FileTree} {working location : Location} {path : Path}
    (h : tree.resolve working path = .ok location) : location = path.place working := by
  unfold resolve at h
  split at h
  · simp at h
  · next hempty =>
    rw [place_eq_descend (Bool.eq_false_iff.2 hempty)]
    exact follow_eq_ok h

theorem dropEmptyEnd_prefix_pieces (pieces : List (List Char)) :
    dropEmptyEnd pieces <+: pieces := by
  have h := List.reverse_prefix.2 (List.dropWhile_suffix (l := pieces.reverse) (·.isEmpty))
  rwa [List.reverse_reverse] at h

theorem ne_nil_of_getLast?_dropEmptyEnd {pieces : List (List Char)} {last : List Char}
    (h : (dropEmptyEnd pieces).getLast? = some last) : last ≠ [] := by
  rw [dropEmptyEnd, List.getLast?_reverse] at h
  have hkept := List.head?_dropWhile_not (·.isEmpty) pieces.reverse
  rw [h] at hkept
  simpa using hkept

/-- A file is written in the directory of all pieces of its path but the last, which is a
name, and not in the place of a directory. -/
theorem exists_of_target_eq_ok {tree : FileTree} {working location : Location} {path : Path}
    (h : tree.target working path = .ok location) :
    ∃ parent last, location = parent ++ [last] ∧
      tree.follow (startOf working path) path.pieces.dropLast = .ok parent ∧
      path.pieces.dropLast ++ [last] = path.pieces ∧
      (last ≠ [] ∧ last ≠ ['.'] ∧ last ≠ ['.', '.']) ∧
      tree.find? parent = some .directory ∧ tree.find? location ≠ some .directory := by
  simp only [target] at h
  cases hlast : (dropEmptyEnd path.pieces).getLast? with
  | none => simp [hlast] at h
  | some last =>
    cases hfollow : tree.follow (startOf working path) (dropEmptyEnd path.pieces).dropLast with
    | error fault => simp [hlast, hfollow] at h
    | ok parent =>
      simp only [hlast, hfollow] at h
      split at h
      · simp at h
      · simp at h
      · next hparent =>
        split at h
        · simp at h
        · next hname =>
          obtain ⟨hlength, hdots⟩ := not_or.1 hname
          obtain ⟨hhere, hup⟩ := not_or.1 hdots
          have hkept : dropEmptyEnd path.pieces = path.pieces :=
            (dropEmptyEnd_prefix_pieces path.pieces).eq_of_length_le (Nat.not_lt.1 hlength)
          have hempty := ne_nil_of_getLast?_dropEmptyEnd hlast
          rw [hkept] at hlast hfollow
          have hpieces : path.pieces.dropLast ++ [last] = path.pieces := by
            obtain ⟨front, hfront⟩ := List.getLast?_eq_some_iff.1 hlast
            rw [hfront, List.dropLast_concat]
          split at h
          · simp at h
          · next hfree =>
            obtain rfl : parent ++ [last] = location := by simpa using h
            exact ⟨parent, last, rfl, hfollow, hpieces, ⟨hempty, hhere, hup⟩, hparent, hfree⟩

theorem isEmpty_eq_false_of_target {tree : FileTree} {working location : Location}
    {path : Path} (h : tree.target working path = .ok location) : path.isEmpty = false := by
  obtain ⟨parent, last, -, -, hpieces, ⟨hempty, -⟩, -⟩ := exists_of_target_eq_ok h
  rw [isEmpty_eq_false_iff]
  intro hnil
  rw [Path.pieces, hnil] at hpieces
  exact hempty (by simpa [Text.pieces] using hpieces)

/-- A file is written at the place that its path spells. -/
theorem target_eq_ok {tree : FileTree} {working location : Location} {path : Path}
    (h : tree.target working path = .ok location) : location = path.place working := by
  obtain ⟨parent, last, hlocation, hfollow, hpieces, ⟨hempty, hhere, hup⟩, -⟩ :=
    exists_of_target_eq_ok h
  have hlast : descend parent [last] = parent ++ [last] := by
    rw [descend, List.filterMap_cons_some (ofInner?_of_ne hempty hhere hup)]
    rfl
  calc
    location = parent ++ [last] := hlocation
    _ = descend parent [last] := hlast.symm
    _ = descend (descend (startOf working path) path.pieces.dropLast) [last] := by
      rw [← follow_eq_ok hfollow]
    _ = descend (startOf working path) path.pieces := by rw [← descend_append, hpieces]
    _ = path.place working := (place_eq_descend (isEmpty_eq_false_of_target h) working).symm

end FileTree

end DocSheet
