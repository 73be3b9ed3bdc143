import DocSheet.Command.Run

/-!
# How a run ends

A run ends in one of seven ways. In four of them it fails: at a check of the options, at
one of the two inputs, or at the place of the output. In the other three it lists the
records, prints the sheets or writes them. What a run has read tells how it ends, so the
ways exclude each other.
-/

namespace DocSheet.Run

/-! ## Ways to end -/

abbrev docFileOf (options : Options) : Path :=
  docFilePath options.manifest options.docFile

/-- The sheets of a manifest and records, of the namespaces that the options name. -/
def sheetsOf (options : Options) (manifest : Manifest) (records : List Record) : List Sheet :=
  Assembly.sheets ⟨manifest, records, ⟨options.namespaces⟩⟩

/-- The options are in order, with the given format, and the doc-comment file has the
given records. -/
structure Opens (options : Options) (working : Location) (tree : FileTree) (format : Format)
    (records : List Record) : Prop where
  prepared : prepare options (docFileOf options) = .ok format
  recordsRead : readRecords tree working (docFileOf options) = .ok records

/-- The options of a run are in order just when its paths are, and its format is known. -/
theorem prepare_eq_ok_iff {options : Options} {docFile : Path} {format : Format} :
    prepare options docFile = .ok format ↔
      validatePaths options.manifest docFile options.output = .ok () ∧
        Format.ofName? options.format = some format := by
  unfold prepare
  cases validatePaths options.manifest docFile options.output with
  | error failure => simp [bind, Except.bind]
  | ok _ =>
    cases Format.ofName? options.format with
    | none => simp [bind, Except.bind, throw, throwThe, MonadExceptOf.throw]
    | some known => simp [bind, Except.bind, pure, Except.pure]

/-- What a run ends in: what it has printed, the tree behind it and its failure. -/
inductive Ending (options : Options) (working : Location) (tree : FileTree) :
    String → FileTree → Option Failure → Prop
  | refused {failure : Failure} (hprepare : prepare options (docFileOf options) = .error failure) :
    Ending options working tree "" tree (some failure)
  | unread {format : Format} {failure : Failure}
      (hprepare : prepare options (docFileOf options) = .ok format)
      (hrecords : readRecords tree working (docFileOf options) = .error failure) :
    Ending options working tree "" tree (some failure)
  | listed {format : Format} {records : List Record}
      (hopens : Opens options working tree format records) (hlist : options.listMembers = true) :
    Ending options working tree (format.list records) tree none
  | unloaded {format : Format} {records : List Record} {failure : Failure}
      (hopens : Opens options working tree format records) (hlist : options.listMembers = false)
      (hmanifest : loadManifest tree working options.manifest = .error failure) :
    Ending options working tree "" tree (some failure)
  | printed {format : Format} {records : List Record} {manifest : Manifest}
      (hopens : Opens options working tree format records) (hlist : options.listMembers = false)
      (hmanifest : loadManifest tree working options.manifest = .ok manifest)
      (houtput : options.output = none) :
    Ending options working tree (format.render (sheetsOf options manifest records)) tree none
  | unwritten {format : Format} {records : List Record} {manifest : Manifest} {path : Path}
      {fault : IoFault}
      (hopens : Opens options working tree format records) (hlist : options.listMembers = false)
      (hmanifest : loadManifest tree working options.manifest = .ok manifest)
      (houtput : options.output = some path) (htarget : tree.target working path = .error fault) :
    Ending options working tree "" tree (some (.writing path (.io fault)))
  | written {format : Format} {records : List Record} {manifest : Manifest} {path : Path}
      {location : Location}
      (hopens : Opens options working tree format records) (hlist : options.listMembers = false)
      (hmanifest : loadManifest tree working options.manifest = .ok manifest)
      (houtput : options.output = some path) (htarget : tree.target working path = .ok location) :
    Ending options working tree ""
      (tree.put location (Encoding.encode (format.render (sheetsOf options manifest records))
        options.encoding)) none

theorem ending_loudly (options : Options) (working : Location) (tree : FileTree) :
    Ending options working tree (loudly options working tree).stdout
      (loudly options working tree).tree (loudly options working tree).failure := by
  unfold loudly
  cases hprepare : prepare options (docFilePath options.manifest options.docFile) with
  | error failure =>
    simp only [hprepare]
    exact .refused hprepare
  | ok format =>
    simp only [hprepare]
    cases hrecords : readRecords tree working (docFilePath options.manifest options.docFile) with
    | error failure => exact .unread hprepare hrecords
    | ok records =>
      have hopens : Opens options working tree format records := ⟨hprepare, hrecords⟩
      cases hlist : options.listMembers with
      | true => exact .listed hopens hlist
      | false =>
        simp only [Bool.false_eq_true, if_false, document]
        cases hmanifest : loadManifest tree working options.manifest with
        | error failure => exact .unloaded hopens hlist hmanifest
        | ok manifest =>
          simp only [deliver]
          cases houtput : options.output with
          | none => exact .printed hopens hlist hmanifest houtput
          | some path =>
            simp only [FileTree.write]
            cases htarget : tree.target working path with
            | error fault => exact .unwritten hopens hlist hmanifest houtput htarget
            | ok location => exact .written hopens hlist hmanifest houtput htarget

/-- Every run ends in one of the ways. -/
theorem ending_run (options : Options) (working : Location) (tree : FileTree) :
    Ending options working tree (run options working tree).stdout
      (run options working tree).tree (run options working tree).failure := by
  have hloudly := ending_loudly options working tree
  unfold run
  cases options.verbose with
  | true => exact hloudly
  | false => exact hloudly

/-! ## What each end says -/

section

variable {options : Options} {working : Location} {tree after : FileTree} {stdout : String}
  {format : Format} {records : List Record} {manifest : Manifest}

theorem Ending.no_effect {failure : Failure}
    (h : Ending options working tree stdout after (some failure)) :
    stdout = "" ∧ after = tree := by
  cases h with
  | refused => exact ⟨rfl, rfl⟩
  | unread => exact ⟨rfl, rfl⟩
  | unloaded => exact ⟨rfl, rfl⟩
  | unwritten => exact ⟨rfl, rfl⟩

/-- The records that the options and the doc-comment file give are the only ones. -/
theorem Opens.unique (h : Opens options working tree format records) {format' : Format}
    {records' : List Record} (h' : Opens options working tree format' records') :
    format' = format ∧ records' = records := by
  have hformat := h'.prepared.symm.trans h.prepared
  have hrecords := h'.recordsRead.symm.trans h.recordsRead
  exact ⟨Except.ok.inj hformat, Except.ok.inj hrecords⟩

theorem Ending.opens (h : Ending options working tree stdout after none) :
    ∃ format records, Opens options working tree format records := by
  cases h with
  | listed hopens => exact ⟨_, _, hopens⟩
  | printed hopens => exact ⟨_, _, hopens⟩
  | written hopens => exact ⟨_, _, hopens⟩

theorem Ending.of_list (h : Ending options working tree stdout after none)
    (hopens : Opens options working tree format records) (hlist : options.listMembers = true) :
    stdout = format.list records ∧ after = tree := by
  cases h with
  | listed hopens' =>
    obtain ⟨rfl, rfl⟩ := hopens.unique hopens'
    exact ⟨rfl, rfl⟩
  | printed _ hsheets => simp [hlist] at hsheets
  | written _ hsheets => simp [hlist] at hsheets

theorem Ending.succeeds {failure : Option Failure}
    (h : Ending options working tree stdout after failure)
    (hopens : Opens options working tree format records)
    (hasked : options.listMembers = true ∨
      ∃ manifest, loadManifest tree working options.manifest = .ok manifest ∧
        ∀ path, options.output = some path →
          ∃ location, tree.target working path = .ok location) : failure = none := by
  cases h with
  | refused hprepare => cases hprepare.symm.trans hopens.prepared
  | unread _ hrecords => cases hrecords.symm.trans hopens.recordsRead
  | unloaded _ hlist hmanifest => simp [hlist, hmanifest] at hasked
  | unwritten _ hlist _ houtput htarget => simp [hlist, houtput, htarget] at hasked
  | listed => rfl
  | printed => rfl
  | written => rfl

theorem Ending.loads (h : Ending options working tree stdout after none)
    (hlist : options.listMembers = false) :
    ∃ manifest, loadManifest tree working options.manifest = .ok manifest := by
  cases h with
  | listed _ hlisted => simp [hlist] at hlisted
  | printed _ _ hmanifest => exact ⟨_, hmanifest⟩
  | written _ _ hmanifest => exact ⟨_, hmanifest⟩

theorem Ending.of_print (h : Ending options working tree stdout after none)
    (hopens : Opens options working tree format records) (hlist : options.listMembers = false)
    (hmanifest : loadManifest tree working options.manifest = .ok manifest)
    (houtput : options.output = none) :
    stdout = format.render (sheetsOf options manifest records) ∧ after = tree := by
  cases h with
  | listed _ hlisted => simp [hlist] at hlisted
  | printed hopens' _ hmanifest' =>
    obtain ⟨rfl, rfl⟩ := hopens.unique hopens'
    obtain rfl := Except.ok.inj (hmanifest'.symm.trans hmanifest)
    exact ⟨rfl, rfl⟩
  | written _ _ _ hsome => simp [houtput] at hsome

theorem Ending.of_write (h : Ending options working tree stdout after none)
    (hopens : Opens options working tree format records) (hlist : options.listMembers = false)
    (hmanifest : loadManifest tree working options.manifest = .ok manifest) {path : Path}
    (houtput : options.output = some path) :
    stdout = "" ∧ ∃ location, tree.target working path = .ok location ∧
      after = tree.put location (Encoding.encode
        (format.render (sheetsOf options manifest records)) options.encoding) := by
  cases h with
  | listed _ hlisted => simp [hlist] at hlisted
  | printed _ _ _ hnone => simp [houtput] at hnone
  | written hopens' _ hmanifest' hsome htarget =>
    obtain ⟨rfl, rfl⟩ := hopens.unique hopens'
    obtain rfl := Except.ok.inj (hmanifest'.symm.trans hmanifest)
    obtain rfl := Option.some.inj (hsome.symm.trans houtput)
    exact ⟨rfl, _, htarget, rfl⟩

end

/-- A run succeeds just when its options are in order and it can read what it was asked
for and write where it was asked to. -/
theorem failure_run_eq_none_iff (options : Options) (working : Location) (tree : FileTree) :
    (run options working tree).failure = none ↔
      ∃ format records, Opens options working tree format records ∧
        (options.listMembers = true ∨
          ∃ manifest, loadManifest tree working options.manifest = .ok manifest ∧
            ∀ path, options.output = some path →
              ∃ location, tree.target working path = .ok location) := by
  have hending := ending_run options working tree
  constructor
  · intro hnone
    rw [hnone] at hending
    obtain ⟨format, records, hopens⟩ := hending.opens
    refine ⟨format, records, hopens, ?_⟩
    cases hlist : options.listMembers with
    | true => exact .inl rfl
    | false =>
      obtain ⟨manifest, hmanifest⟩ := hending.loads hlist
      refine .inr ⟨manifest, hmanifest, fun path houtput ↦ ?_⟩
      obtain ⟨-, location, htarget, -⟩ := hending.of_write hopens hlist hmanifest houtput
      exact ⟨location, htarget⟩
  · rintro ⟨format, records, hopens, hasked⟩
    exact hending.succeeds hopens hasked

end DocSheet.Run
