import DocSheet.Proofs.Command.Endings
import DocSheet.Proofs.Files.Writing
import Mathlib.Control.Monad.Basic

/-!
# The effect of a run

A run that fails has printed nothing and changed nothing. A run that succeeds has one
effect: it prints a listing of the records, or prints the sheets, or writes the sheets to
one file. A listing is made of the doc-comment file alone, so the manifest may hold
anything, or be missing.

A write fails here before it has changed anything, since only the path can make it fail: a
file tree has no permissions and no end to what it holds.
-/

namespace DocSheet.Run

/-! ## Effects -/

/-- An outcome with a text printed and the tree left as it was. -/
structure OnlyPrints (tree : FileTree) (text : String) (outcome : Outcome) : Prop where
  stdout : outcome.stdout = text
  tree : outcome.tree = tree

/-- An outcome with nothing printed and one file of the tree written, at the place of a
path. -/
structure OnlyWrites (working : Location) (tree : FileTree) (path : Path) (bytes : List UInt8)
    (outcome : Outcome) : Prop where
  stdout : outcome.stdout = ""
  read : outcome.tree.read working path = .ok bytes
  place : ∃ location, tree.target working path = .ok location ∧
    outcome.tree.find? location = some (.file bytes) ∧
    ∀ other, other ≠ location → outcome.tree.find? other = tree.find? other

theorem OnlyWrites.of_put {working location : Location} {tree : FileTree} {path : Path}
    {bytes : List UInt8} {outcome : Outcome} (htarget : tree.target working path = .ok location)
    (hstdout : outcome.stdout = "") (htree : outcome.tree = tree.put location bytes) :
    OnlyWrites working tree path bytes outcome where
  stdout := hstdout
  read := by
    rw [htree]
    exact FileTree.read_put_target htarget bytes
  place := by
    refine ⟨location, htarget, ?_, ?_⟩
    · rw [htree]
      exact FileTree.find?_put_target htarget bytes
    · intro other hother
      rw [htree]
      exact FileTree.find?_put_of_ne tree hother bytes

/-! ## A listing does not look at the manifest -/

theorem run_of_list {options : Options} {working : Location} {tree : FileTree} {format : Format}
    {records : List Record} (hopens : Opens options working tree format records)
    (hlist : options.listMembers = true) :
    run options working tree =
      { stdout := format.list records, tree, failure := none
        log := if options.verbose then [.recordsRead records.length (docFileOf options)]
          else [] } := by
  have hprepare := hopens.prepared
  have hrecords := hopens.recordsRead
  unfold docFileOf at hprepare hrecords
  have hloudly : loudly options working tree =
      printed tree [.recordsRead records.length (docFileOf options)] (format.list records) := by
    simp only [loudly, hprepare, hrecords, hlist, if_true]
  unfold run
  rw [hloudly]
  cases options.verbose <;> rfl

/-- A run that lists what one tree records does so in every tree that records the same. -/
theorem run_of_list_eq {options : Options} {working : Location} {tree other : FileTree}
    {format : Format} {records : List Record}
    (hopens : Opens options working tree format records) (hlist : options.listMembers = true)
    (hsame : readRecords other working (docFileOf options) =
      readRecords tree working (docFileOf options)) :
    run options working other = { run options working tree with tree := other } := by
  have hother : Opens options working other format records :=
    ⟨hopens.prepared, hsame.trans hopens.recordsRead⟩
  rw [run_of_list hopens hlist, run_of_list hother hlist]

theorem readRecords_put {working location : Location} {tree : FileTree} {path : Path}
    {records : List Record} (hrecords : readRecords tree working path = .ok records)
    (hfree : tree.find? location ≠ some .directory)
    (hother : tree.resolve working path ≠ .ok location) (bytes : List UInt8) :
    readRecords (tree.put location bytes) working path = .ok records := by
  cases hresolve : tree.resolve working path with
  | error fault => simp [readRecords, FileTree.isFile, hresolve] at hrecords
  | ok place =>
    have hplace : place ≠ location := by
      rintro rfl
      exact hother hresolve
    have hresolvePut := FileTree.resolve_put hfree hresolve bytes
    have hfind := FileTree.find?_put_of_ne tree hplace bytes
    simpa only [readRecords, FileTree.isFile, readText, FileTree.read, hresolve, hresolvePut,
      hfind] using hrecords

/-! ## One effect or none -/

/-- A run that fails has printed nothing and changed nothing. One that lists the records
only prints them, whatever the manifest holds. One that makes sheets only prints them, or
only writes them to its output. -/
theorem run_effect (options : Options) (working : Location) (tree : FileTree) :
    (∀ failure, (run options working tree).failure = some failure →
      OnlyPrints tree "" (run options working tree)) ∧
    ((run options working tree).failure = none ↔
      ∃ format records, Opens options working tree format records ∧
        (options.listMembers = true ∨
          ∃ manifest, loadManifest tree working options.manifest = .ok manifest ∧
            ∀ path, options.output = some path →
              ∃ location, tree.target working path = .ok location)) ∧
    ∀ format records, (run options working tree).failure = none →
      Opens options working tree format records →
      (options.listMembers = true →
        OnlyPrints tree (format.list records) (run options working tree) ∧
        (∀ other : FileTree, readRecords other working (docFileOf options) = .ok records →
          run options working other = { run options working tree with tree := other }) ∧
        ∀ location bytes, tree.resolve working options.manifest = .ok location →
          tree.find? location ≠ some .directory →
          tree.resolve working (docFileOf options) ≠ .ok location →
          run options working (tree.put location bytes) =
            { run options working tree with tree := tree.put location bytes }) ∧
      (options.listMembers = false → ∃ manifest,
        loadManifest tree working options.manifest = .ok manifest ∧
        (options.output = none → OnlyPrints tree
          (format.render (sheetsOf options manifest records)) (run options working tree)) ∧
        ∀ path, options.output = some path → OnlyWrites working tree path
          (Encoding.encode (format.render (sheetsOf options manifest records)) options.encoding)
          (run options working tree)) := by
  have hending := ending_run options working tree
  refine ⟨?failed, failure_run_eq_none_iff options working tree, ?succeeded⟩
  case failed =>
    intro failure hfailure
    rw [hfailure] at hending
    obtain ⟨hstdout, htree⟩ := hending.no_effect
    exact ⟨hstdout, htree⟩
  case succeeded =>
    intro format records hnone hopens
    rw [hnone] at hending
    constructor
    · intro hlist
      obtain ⟨hstdout, htree⟩ := hending.of_list hopens hlist
      have hsame {other : FileTree}
          (hrecords : readRecords other working (docFileOf options) = .ok records) :
          run options working other = { run options working tree with tree := other } :=
        run_of_list_eq hopens hlist (hrecords.trans hopens.recordsRead.symm)
      refine ⟨⟨hstdout, htree⟩, fun other ↦ hsame, ?_⟩
      intro location bytes _ hfree hother
      exact hsame (readRecords_put hopens.recordsRead hfree hother bytes)
    · intro hlist
      obtain ⟨manifest, hmanifest⟩ := hending.loads hlist
      refine ⟨manifest, hmanifest, ?_, ?_⟩
      · intro houtput
        obtain ⟨hstdout, htree⟩ := hending.of_print hopens hlist hmanifest houtput
        exact ⟨hstdout, htree⟩
      · intro path houtput
        obtain ⟨hstdout, location, htarget, htree⟩ :=
          hending.of_write hopens hlist hmanifest houtput
        exact .of_put htarget hstdout htree

/-- A type with one member. -/
def pointManifest : Manifest :=
  ⟨[⟨"G", "", .classType, [], [⟨"x", .field, .enumeration, none, none⟩], []⟩]⟩

def pointManifestText : String :=
  "\x7b\"types\":[\x7b\"full_name\":\"G\",\"members\":[\x7b\"name\":\"x\"," ++
    "\"type\":\"enum\"\x7d]\x7d]\x7d"

/-- The manifest of the type and a comment on its member, in a directory `w`. -/
def pointTree : FileTree where
  nodes :=
    [(["w".toList], .directory),
      (["w".toList, "g.json".toList], .file (Encoding.encode pointManifestText .utf8)),
      (["w".toList, "g.xml".toList], .file (Encoding.encode
        "<member name='F:G.x'><summary>s</summary></member>" .utf8))]

/-- Makes sheets of the manifest, or lists the records next to it. -/
def pointOptions (listMembers : Bool) (output : Option Path) : Options :=
  { manifest := ⟨"g.json"⟩, docFile := none, output, format := "text", encoding := .utf16
    namespaces := [], listMembers, verbose := true }

def pointSheet : Sheet :=
  ⟨"G", "G", none, [⟨"x", .placeholder "Number"⟩], [⟨"x", some "Number", some "s"⟩]⟩

/-- A listing, sheets that are printed and sheets that are written, and a failure for
want of a directory. -/
theorem run_effect_point :
    OnlyPrints pointTree "G.x\n" (run (pointOptions true none) ["w".toList] pointTree) ∧
      OnlyPrints pointTree (Sheet.plainText [pointSheet])
        (run (pointOptions false none) ["w".toList] pointTree) ∧
      OnlyWrites ["w".toList] pointTree ⟨"../o"⟩
        (Encoding.encode (Sheet.plainText [pointSheet]) .utf16)
        (run (pointOptions false (some ⟨"../o"⟩)) ["w".toList] pointTree) ∧
      OnlyPrints pointTree ""
        (run (pointOptions false (some ⟨"n/o"⟩)) ["w".toList] pointTree) := by
  have hrecords : readRecords pointTree ["w".toList] (docFilePath ⟨"g.json"⟩ none) =
      .ok [⟨"x", "G", "s", .field, []⟩] := by decide +kernel
  have hload : loadManifest pointTree ["w".toList] ⟨"g.json"⟩ = .ok pointManifest := by
    decide +kernel
  have hsheets : Assembly.sheets ⟨pointManifest, [⟨"x", "G", "s", .field, []⟩], ⟨[]⟩⟩ =
      [pointSheet] := by decide +kernel
  have hopens (listMembers : Bool) (output : Option Path)
      (hvalid : prepare (pointOptions listMembers output) ⟨"g.xml"⟩ = .ok .text) :
      Opens (pointOptions listMembers output) ["w".toList] pointTree .text
        [⟨"x", "G", "s", .field, []⟩] := by
    have hdocFile : docFilePath ⟨"g.json"⟩ none = ⟨"g.xml"⟩ := by decide +kernel
    exact ⟨(congrArg (prepare _) hdocFile).trans hvalid, hrecords⟩
  have hlisted := run_effect (pointOptions true none) ["w".toList] pointTree
  have hprinted := run_effect (pointOptions false none) ["w".toList] pointTree
  have hwritten := run_effect (pointOptions false (some ⟨"../o"⟩)) ["w".toList] pointTree
  have hfailed := run_effect (pointOptions false (some ⟨"n/o"⟩)) ["w".toList] pointTree
  refine ⟨?_, ?_, ?_, ?_⟩
  · have hopens := hopens true none (by decide +kernel)
    have hsuccess := hlisted.2.1.2 ⟨_, _, hopens, .inl rfl⟩
    exact ((hlisted.2.2 _ _ hsuccess hopens).1 rfl).1
  · have hopens := hopens false none (by decide +kernel)
    have hsuccess := hprinted.2.1.2 ⟨_, _, hopens, .inr ⟨_, hload, by simp [pointOptions]⟩⟩
    obtain ⟨manifest, hmanifest, hprints, -⟩ := (hprinted.2.2 _ _ hsuccess hopens).2 rfl
    obtain rfl := Except.ok.inj (hload.symm.trans hmanifest)
    rw [← hsheets]
    exact hprints rfl
  · have hopens := hopens false (some ⟨"../o"⟩) (by decide +kernel)
    have htarget : pointTree.target ["w".toList] ⟨"../o"⟩ = .ok ["o".toList] := by
      decide +kernel
    have hsuccess := hwritten.2.1.2 ⟨_, _, hopens, .inr ⟨_, hload, fun path houtput ↦
      ⟨_, (Option.some.inj houtput) ▸ htarget⟩⟩⟩
    obtain ⟨manifest, hmanifest, -, hwrites⟩ := (hwritten.2.2 _ _ hsuccess hopens).2 rfl
    obtain rfl := Except.ok.inj (hload.symm.trans hmanifest)
    rw [← hsheets]
    exact hwrites ⟨"../o"⟩ rfl
  · have hfailure : (run (pointOptions false (some ⟨"n/o"⟩)) ["w".toList] pointTree).failure =
        some (.writing ⟨"n/o"⟩ (.io .notFound)) := by decide +kernel
    exact hfailed.1 _ hfailure

end DocSheet.Run
