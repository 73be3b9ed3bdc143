import DocSheet.Proofs.Command.Endings
import DocSheet.Proofs.Files.Places

/-!
# What becomes of the inputs

A run changes the tree at one place at most: there it writes the text of the sheets,
once the options are in order and both inputs are read. It changes an input just when
its output leads to the place of the input, under a path of other components, and the
text is not what the input held already. Paths without dots that start alike lead to
one place only if they are the same, so such an output leaves the inputs alone.
-/

namespace DocSheet.Run

/-- The paths that a run reads from. -/
def inputs (options : Options) : List Path :=
  [options.manifest, docFilePath options.manifest options.docFile]

/-- The text of the sheets, if the options are in order, ask for sheets, and both inputs
can be read. -/
def sheetText? (options : Options) (working : Location) (tree : FileTree) : Option String :=
  let docFile := docFilePath options.manifest options.docFile
  if options.listMembers then none
  else match prepare options docFile, readRecords tree working docFile,
    loadManifest tree working options.manifest with
  | .ok format, .ok records, .ok manifest =>
    some (format.render (Assembly.sheets ⟨manifest, records, ⟨options.namespaces⟩⟩))
  | _, _, _ => none

/-! ## The paths of a run -/

theorem validatePaths_eq_ok_iff {manifest docFile : Path} {output : Option Path} :
    validatePaths manifest docFile output = .ok () ↔
      manifest.isEmpty = false ∧ manifest.same docFile = false ∧
        ∀ path ∈ output, path.isEmpty = false ∧ path.same manifest = false ∧
          path.same docFile = false := by
  cases hempty : manifest.isEmpty with
  | true => simp [validatePaths, hempty]
  | false =>
    cases hsame : manifest.same docFile with
    | true => simp [validatePaths, hempty, hsame]
    | false =>
      cases output with
      | none => simp [validatePaths, hempty, hsame]
      | some path =>
        cases houtput : path.isEmpty with
        | true => simp [validatePaths, hempty, hsame, houtput]
        | false =>
          cases hmanifest : path.same manifest <;> cases hdocFile : path.same docFile <;>
            simp [validatePaths, hempty, hsame, houtput, hmanifest, hdocFile]

/-- An output that a text of sheets goes to is spelled like none of the inputs. -/
theorem same_eq_false_of_sheetText? {options : Options} {working : Location} {tree : FileTree}
    {text : String} (h : sheetText? options working tree = some text) {output input : Path}
    (houtput : options.output = some output) (hinput : input ∈ inputs options) :
    output.same input = false := by
  cases hprepare : prepare options (docFilePath options.manifest options.docFile) with
  | error failure => simp [sheetText?, hprepare] at h
  | ok format =>
    have hvalid := validatePaths_eq_ok_iff.1 ((prepare_eq_ok_iff.1 hprepare).1)
    obtain ⟨-, hmanifest, hdocFile⟩ := hvalid.2.2 output houtput
    simp only [inputs, List.mem_cons, List.not_mem_nil, or_false] at hinput
    rcases hinput with rfl | rfl
    · exact hmanifest
    · exact hdocFile

/-! ## The tree behind a run -/

theorem sheetText?_of_opens {options : Options} {working : Location} {tree : FileTree}
    {format : Format} {records : List Record} {manifest : Manifest}
    (hopens : Opens options working tree format records) (hlist : options.listMembers = false)
    (hmanifest : loadManifest tree working options.manifest = .ok manifest) :
    sheetText? options working tree =
      some (format.render (sheetsOf options manifest records)) := by
  simp [sheetText?, hopens.prepared, hopens.recordsRead, hlist, hmanifest, sheetsOf]

/-- A run writes the text of the sheets to its output, if there is one and it can be
written, and otherwise leaves the tree as it is. -/
theorem tree_run (options : Options) (working : Location) (tree : FileTree) :
    (run options working tree).tree =
      match options.output, sheetText? options working tree with
      | some output, some text =>
        (tree.write working output (Encoding.encode text options.encoding)).toOption.getD tree
      | _, _ => tree := by
  have hending := ending_run options working tree
  generalize (run options working tree).stdout = stdout at hending
  generalize (run options working tree).tree = after at hending ⊢
  generalize (run options working tree).failure = failure at hending
  cases hending with
  | refused hprepare =>
    have htext : sheetText? options working tree = none := by simp [sheetText?, hprepare]
    simp [htext]
  | unread _ hrecords =>
    have htext : sheetText? options working tree = none := by simp [sheetText?, hrecords]
    simp [htext]
  | listed _ hlist =>
    have htext : sheetText? options working tree = none := by simp [sheetText?, hlist]
    simp [htext]
  | unloaded _ _ hmanifest =>
    have htext : sheetText? options working tree = none := by simp [sheetText?, hmanifest]
    simp [htext]
  | printed _ _ _ houtput => simp [houtput]
  | unwritten hopens hlist hmanifest houtput htarget =>
    rw [houtput, sheetText?_of_opens hopens hlist hmanifest]
    simp [FileTree.write, htarget, Except.toOption]
  | written hopens hlist hmanifest houtput htarget =>
    rw [houtput, sheetText?_of_opens hopens hlist hmanifest]
    simp [FileTree.write, htarget, Except.toOption]

/-- A file is another one behind a run just when the run writes another in its place. -/
theorem find?_tree_run_ne_iff {options : Options} {working location : Location}
    {tree : FileTree} {bytes : List UInt8} (hfile : tree.find? location = some (.file bytes)) :
    (run options working tree).tree.find? location ≠ some (.file bytes) ↔
      ∃ output text, options.output = some output ∧
        sheetText? options working tree = some text ∧
        tree.target working output = .ok location ∧
        Encoding.encode text options.encoding ≠ bytes := by
  have hroot : location ≠ [] := by
    rintro rfl
    simp [FileTree.find?] at hfile
  rw [tree_run]
  constructor
  · intro h
    cases houtput : options.output with
    | none => simp [houtput, hfile] at h
    | some output =>
      cases htext : sheetText? options working tree with
      | none => simp [houtput, htext, hfile] at h
      | some text =>
        cases htarget : tree.target working output with
        | error fault =>
          simp [houtput, htext, FileTree.write, htarget, Except.toOption, hfile] at h
        | ok written =>
          simp only [houtput, htext, FileTree.write, htarget, Except.toOption,
            Option.getD_some] at h
          by_cases hwritten : location = written
          · subst hwritten
            rw [FileTree.find?_put_self tree hroot] at h
            exact ⟨output, text, rfl, rfl, htarget, by simpa using h⟩
          · rw [FileTree.find?_put_of_ne tree hwritten] at h
            exact absurd hfile h
  · rintro ⟨output, text, houtput, htext, htarget, hbytes⟩
    simp only [houtput, htext, FileTree.write, htarget, Except.toOption, Option.getD_some]
    rw [FileTree.find?_put_self tree hroot]
    simpa using hbytes

/-! ## Inputs -/

/-- An input is another file behind a run just when the output, spelled otherwise, leads
to its place and the text of the sheets is not what it held. It stays as it is if both
are spelled without dots and start alike. -/
theorem input_changed_iff {options : Options} {working : Location} {tree : FileTree}
    {input : Path} (hinput : input ∈ inputs options) {location : Location}
    (hresolve : tree.resolve working input = .ok location) {bytes : List UInt8}
    (hfile : tree.find? location = some (.file bytes)) :
    ((run options working tree).tree.find? location ≠ some (.file bytes) ↔
      ∃ output text, options.output = some output ∧ output.same input = false ∧
        tree.target working output = .ok location ∧
        sheetText? options working tree = some text ∧
        Encoding.encode text options.encoding ≠ bytes) ∧
    (∀ output, options.output = some output → output.Plain → input.Plain →
      output.isAbsolute = input.isAbsolute →
      (run options working tree).tree.find? location = some (.file bytes)) := by
  constructor
  · rw [find?_tree_run_ne_iff hfile]
    constructor
    · rintro ⟨output, text, houtput, htext, htarget, hbytes⟩
      have hother := same_eq_false_of_sheetText? htext houtput hinput
      exact ⟨output, text, houtput, hother, htarget, htext, hbytes⟩
    · rintro ⟨output, text, houtput, -, htarget, htext, hbytes⟩
      exact ⟨output, text, houtput, htext, htarget, hbytes⟩
  · intro output houtput hplain hinputPlain hstart
    apply Classical.byContradiction
    intro hchanged
    obtain ⟨written, text, hwritten, htext, htarget, -⟩ :=
      (find?_tree_run_ne_iff hfile).1 hchanged
    obtain rfl : output = written := Option.some.inj (houtput.symm.trans hwritten)
    have hplace : output.place working = input.place working := by
      calc
        output.place working = location := (FileTree.target_eq_ok htarget).symm
        _ = input.place working := FileTree.resolve_eq_ok hresolve
    have hsame := (hplain.same_iff_place_eq hinputPlain hstart working).2 hplace
    rw [same_eq_false_of_sheetText? htext houtput hinput] at hsame
    exact Bool.false_ne_true hsame

/-- An object without fields. -/
def manifestBytes : List UInt8 := [0x7B, 0x7D]

/-- The element `<d/>`. -/
def docFileBytes : List UInt8 := [0x3C, 0x64, 0x2F, 0x3E]

/-- A manifest without types and a doc-comment file without members, in a directory `w`
that has another one in it. -/
def bareTree : FileTree where
  nodes :=
    [(["w".toList], .directory), (["w".toList, "d".toList], .directory),
      (["w".toList, "g.json".toList], .file manifestBytes),
      (["w".toList, "g.xml".toList], .file docFileBytes)]

/-- Writes to the manifest by way of the root and the other directory. -/
def detour : Options :=
  { manifest := ⟨"g.json"⟩, docFile := none, output := some ⟨"/w//d/../g.json"⟩
    format := "text", encoding := .utf8, namespaces := [], listMembers := false
    verbose := false }

theorem input_changed_detour :
    detour.manifest ∈ inputs detour ∧
      bareTree.resolve ["w".toList] detour.manifest = .ok ["w".toList, "g.json".toList] ∧
      bareTree.find? ["w".toList, "g.json".toList] = some (.file manifestBytes) ∧
      (run detour ["w".toList] bareTree).tree.find? ["w".toList, "g.json".toList] ≠
        some (.file manifestBytes) := by
  have hinput : detour.manifest ∈ inputs detour := List.mem_cons_self
  have hresolve : bareTree.resolve ["w".toList] detour.manifest =
      .ok ["w".toList, "g.json".toList] := rfl
  have hfile : bareTree.find? ["w".toList, "g.json".toList] = some (.file manifestBytes) := rfl
  have htarget : bareTree.target ["w".toList] ⟨"/w//d/../g.json"⟩ =
      .ok ["w".toList, "g.json".toList] := rfl
  have htext : sheetText? detour ["w".toList] bareTree = some "" := by decide +kernel
  have hchanged := (input_changed_iff hinput hresolve hfile).1.2
    ⟨⟨"/w//d/../g.json"⟩, "", rfl, by decide, htarget, htext, by decide +kernel⟩
  exact ⟨hinput, hresolve, hfile, hchanged⟩

/-- Writes to the doc-comment file, with a dot in front of its path. -/
def dotted : Options :=
  { manifest := ⟨"g.json"⟩, docFile := none, output := some ⟨"./g.xml"⟩
    format := "text", encoding := .utf16, namespaces := [], listMembers := false
    verbose := false }

/-- The guard lets the dotted path pass, and the doc-comment file is lost. -/
theorem docFile_lost_dotted :
    Arguments.read ["g.json", "-o", "./g.xml"] = .ok dotted ∧
      bareTree.resolve ["w".toList] (docFilePath dotted.manifest dotted.docFile) =
        .ok ["w".toList, "g.xml".toList] ∧
      bareTree.find? ["w".toList, "g.xml".toList] = some (.file docFileBytes) ∧
      (run dotted ["w".toList] bareTree).failure.isNone = true ∧
      (run dotted ["w".toList] bareTree).tree.find? ["w".toList, "g.xml".toList] =
        some (.file Encoding.byteOrderMark) := by
  have hread : Arguments.read ["g.json", "-o", "./g.xml"] = .ok dotted := by rfl
  have hresolve : bareTree.resolve ["w".toList] (docFilePath dotted.manifest dotted.docFile) =
      .ok ["w".toList, "g.xml".toList] := by rfl
  have hfailure : (run dotted ["w".toList] bareTree).failure.isNone = true := by
    decide +kernel
  have hfile : (run dotted ["w".toList] bareTree).tree.find? ["w".toList, "g.xml".toList] =
      some (.file Encoding.byteOrderMark) := by decide +kernel
  exact ⟨hread, hresolve, rfl, hfailure, hfile⟩

end DocSheet.Run
