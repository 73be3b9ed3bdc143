import DocSheet.Proofs.Command.Endings
import DocSheet.Proofs.Files.Writing
import DocSheet.Proofs.Text.Utf16
import Mathlib.Control.Monad.Basic

/-!
# What is written is what is printed

The bytes of a text in either encoding are read back as the text, and no other bytes are.
So a run that writes its sheets leaves a file which says exactly what the same run would
have printed without an output.
-/

namespace DocSheet

open Text

/-! ## Bytes of units -/

/-- The 16-bit units that bytes spell, the low byte of each first. An odd byte at the end
is no unit. -/
def unitsOf? : List UInt8 → Option (List Nat)
  | [] => some []
  | [_] => none
  | low :: high :: rest => (unitsOf? rest).map ((low.toNat + 0x100 * high.toNat) :: ·)

theorem unitsOf?_littleEndian {unit : Nat} (hlt : unit < 0x10000) (rest : List UInt8) :
    unitsOf? (Encoding.littleEndian unit ++ rest) = (unitsOf? rest).map (unit :: ·) := by
  have hlow : (unit % 0x100).toUInt8.toNat = unit % 0x100 := by simp
  have hhigh : (unit / 0x100).toUInt8.toNat = unit / 0x100 := by
    simp only [Nat.toUInt8, UInt8.toNat_ofNat']
    omega
  have hunit : unit % 0x100 + 0x100 * (unit / 0x100) = unit := Nat.mod_add_div _ _
  rw [Encoding.littleEndian, List.cons_append, List.singleton_append, unitsOf?, hlow, hhigh, hunit]

theorem littleEndian_toNat (low high : UInt8) :
    Encoding.littleEndian (low.toNat + 0x100 * high.toNat) = [low, high] := by
  have hlt := low.toNat_lt
  have hlow : (low.toNat + 0x100 * high.toNat) % 0x100 = low.toNat := by omega
  have hhigh : (low.toNat + 0x100 * high.toNat) / 0x100 = high.toNat := by omega
  simp [Encoding.littleEndian, hlow, hhigh]

theorem unitsOf?_flatMap {units : List Nat} (hfit : ∀ unit ∈ units, unit < 0x10000) :
    unitsOf? (units.flatMap Encoding.littleEndian) = some units := by
  induction units with
  | nil => rfl
  | cons unit units ih =>
    rw [List.forall_mem_cons] at hfit
    rw [List.flatMap_cons, unitsOf?_littleEndian hfit.1, ih hfit.2, Option.map_some]

theorem eq_flatMap_of_unitsOf? {bytes : List UInt8} {units : List Nat}
    (h : unitsOf? bytes = some units) :
    bytes = units.flatMap Encoding.littleEndian ∧ ∀ unit ∈ units, unit < 0x10000 := by
  fun_induction unitsOf? bytes generalizing units with
  | case1 =>
    obtain rfl := Option.some.inj h
    exact ⟨rfl, by simp⟩
  | case2 => simp at h
  | case3 low high rest ih =>
    obtain ⟨more, hmore, rfl⟩ := Option.map_eq_some_iff.1 h
    obtain ⟨hrest, hfit⟩ := ih hmore
    have hlow := low.toNat_lt
    have hhigh := high.toNat_lt
    refine ⟨?_, List.forall_mem_cons.2 ⟨by omega, hfit⟩⟩
    rw [List.flatMap_cons, littleEndian_toNat, ← hrest]
    rfl

theorem lt_of_mem_flatMap_units {text : List Char} :
    ∀ unit ∈ text.flatMap Utf16.units, unit < 0x10000 := by
  intro unit hunit
  obtain ⟨c, -, hc⟩ := List.mem_flatMap.1 hunit
  exact Utf16.lt_of_mem_units hc

/-! ## Bytes of texts -/

/-- The text that bytes spell in UTF-16. It stands behind a byte-order mark, which is no
part of it. -/
def readUtf16? (bytes : List UInt8) : Option String :=
  if Encoding.byteOrderMark.isPrefixOf bytes then
    ((unitsOf? (bytes.drop 2)).bind Utf16.decode).map String.ofList
  else none

def Encoding.decode? (bytes : List UInt8) : Encoding → Option String
  | utf8 => readUtf8? bytes
  | utf16 => readUtf16? bytes

theorem readUtf8?_eq_some_iff {bytes : List UInt8} {text : String} :
    readUtf8? bytes = some text ↔ bytes = Encoding.encode text .utf8 := by
  constructor
  · intro h
    unfold readUtf8? String.fromUTF8? at h
    split at h
    · obtain rfl := Option.some.inj h
      rfl
    · simp at h
  · rintro rfl
    rw [Encoding.encode, readUtf8?, Array.toArray_toList, String.fromUTF8?]
    exact dif_pos text.isValidUTF8

theorem readUtf16?_eq_some_iff {bytes : List UInt8} {text : String} :
    readUtf16? bytes = some text ↔ bytes = Encoding.encode text .utf16 := by
  constructor
  · intro h
    unfold readUtf16? at h
    split at h
    · next hmark =>
      obtain ⟨body, rfl⟩ := List.isPrefixOf_iff_prefix.1 hmark
      obtain ⟨chars, hchars, rfl⟩ := Option.map_eq_some_iff.1 h
      obtain ⟨units, hunits, hdecode⟩ := Option.bind_eq_some_iff.1 hchars
      have hdrop : (Encoding.byteOrderMark ++ body).drop 2 = body := rfl
      obtain ⟨hbody, hfit⟩ := eq_flatMap_of_unitsOf? (hdrop ▸ hunits)
      rw [Encoding.encode, String.toList_ofList, hbody,
        ← Utf16.eq_flatMap_units_of_decode hfit hdecode]
    · simp at h
  · rintro rfl
    have hbody : unitsOf? ((Encoding.encode text .utf16).drop 2) =
        some (text.toList.flatMap Utf16.units) := unitsOf?_flatMap lt_of_mem_flatMap_units
    rw [readUtf16?, hbody, Option.bind_some, Utf16.decode_flatMap_units, Option.map_some,
      String.ofList_toList]
    rfl

/-- Bytes are read as a text just when they are the ones that the text is written in. -/
theorem Encoding.decode?_eq_some_iff {bytes : List UInt8} {encoding : Encoding} {text : String} :
    decode? bytes encoding = some text ↔ bytes = encode text encoding := by
  cases encoding with
  | utf16 => exact readUtf16?_eq_some_iff
  | utf8 => exact readUtf8?_eq_some_iff

theorem Encoding.encode_injective (encoding : Encoding) :
    Function.Injective fun text ↦ encode text encoding := by
  intro first second h
  have hfirst := decode?_eq_some_iff.2 (rfl : encode first encoding = encode first encoding)
  have hsecond := decode?_eq_some_iff.2 h
  exact Option.some.inj (hfirst.symm.trans hsecond)

theorem Encoding.length_flatMap_littleEndian (units : List Nat) :
    (units.flatMap littleEndian).length = 2 * units.length := by
  induction units with
  | nil => rfl
  | cons unit units ih =>
    rw [List.flatMap_cons, List.length_append, ih, List.length_cons, littleEndian]
    simp only [List.length_cons, List.length_nil]
    omega

/-! ## Runs -/

namespace Run

/-- A run that prints its sheets writes the same text when it is given an output that is
in order and can be written, in whichever encoding it is told to use. -/
theorem run_with_output {options : Options} {working location : Location} {tree : FileTree}
    {path : Path} (hprints : options.output = none) (hsheets : options.listMembers = false)
    (hsucceeds : (run options working tree).failure = none)
    (hvalid : validatePaths options.manifest (docFileOf options) (some path) = .ok ())
    (htarget : tree.target working path = .ok location) (encoding : Encoding) :
    (run { options with output := some path, encoding } working tree).failure = none ∧
      (run { options with output := some path, encoding } working tree).stdout = "" ∧
      (run { options with output := some path, encoding } working tree).tree =
        tree.put location (Encoding.encode (run options working tree).stdout encoding) := by
  have hending := ending_run options working tree
  rw [hsucceeds] at hending
  obtain ⟨format, records, hopens⟩ := hending.opens
  obtain ⟨manifest, hmanifest⟩ := hending.loads hsheets
  obtain ⟨hstdout, -⟩ := hending.of_print hopens hsheets hmanifest hprints
  have hopensToo : Opens { options with output := some path, encoding } working tree format
      records :=
    ⟨prepare_eq_ok_iff.2 ⟨hvalid, (prepare_eq_ok_iff.1 hopens.prepared).2⟩, hopens.recordsRead⟩
  have hwrites : (run { options with output := some path, encoding } working tree).failure =
      none := by
    refine (failure_run_eq_none_iff _ _ _).2 ⟨format, records, hopensToo, .inr ⟨manifest,
      hmanifest, fun output houtput ↦ ⟨location, ?_⟩⟩⟩
    rw [← Option.some.inj houtput, htarget]
  have hendingToo := ending_run { options with output := some path, encoding } working tree
  rw [hwrites] at hendingToo
  obtain ⟨hsilent, place, hplace, htree⟩ := hendingToo.of_write hopensToo hsheets hmanifest rfl
  obtain rfl := Except.ok.inj (htarget.symm.trans hplace)
  exact ⟨hwrites, hsilent, hstdout ▸ htree⟩

/-- A text in UTF-16 is a byte-order mark and two bytes for each unit, and the units are
read back as the text. Bytes of either encoding are read as a text just when they are its
own, so different texts have different bytes. A run that prints its sheets leaves, when it
is given an output that is in order and can be written, a file whose bytes are read as what
it would have printed. -/
theorem output_says_what_is_printed :
    (∀ text, ∃ body units, Encoding.encode text .utf16 = 0xFF :: 0xFE :: body ∧
      body.length = 2 * units.length ∧ unitsOf? body = some units ∧
      Utf16.decode units = some text.toList) ∧
    (∀ bytes encoding text,
      Encoding.decode? bytes encoding = some text ↔ bytes = Encoding.encode text encoding) ∧
    (∀ encoding, Function.Injective fun text ↦ Encoding.encode text encoding) ∧
    ∀ (options : Options) (working : Location) (tree : FileTree) (path : Path)
      (encoding : Encoding), options.output = none → options.listMembers = false →
      (run options working tree).failure = none →
      validatePaths options.manifest (docFileOf options) (some path) = .ok () →
      (∃ location, tree.target working path = .ok location) →
      let written := run { options with output := some path, encoding } working tree
      written.failure = none ∧ written.stdout = "" ∧
        ∃ bytes, written.tree.read working path = .ok bytes ∧
          Encoding.decode? bytes encoding = some (run options working tree).stdout := by
  refine ⟨fun text ↦ ?_, fun _ _ _ ↦ Encoding.decode?_eq_some_iff, Encoding.encode_injective, ?_⟩
  · exact ⟨_, text.toList.flatMap Utf16.units, rfl, Encoding.length_flatMap_littleEndian _,
      unitsOf?_flatMap lt_of_mem_flatMap_units, Utf16.decode_flatMap_units _⟩
  · rintro options working tree path encoding hprints hsheets hsucceeds hvalid ⟨location, htarget⟩
    obtain ⟨hwrites, hsilent, htree⟩ :=
      run_with_output hprints hsheets hsucceeds hvalid htarget encoding
    refine ⟨hwrites, hsilent, _, ?_, Encoding.decode?_eq_some_iff.2 rfl⟩
    rw [htree]
    exact FileTree.read_put_target htarget _

/-- A type whose name starts with the character of the mark, with a comment of characters
around the surrogates and past them, in a directory `w`. -/
def markedTree : FileTree where
  nodes :=
    [(["w".toList], .directory),
      (["w".toList, "g.json".toList], .file (Encoding.encode
        "\x7b\"types\":[\x7b\"full_name\":\"\uFEFFG\"\x7d]\x7d" .utf8)),
      (["w".toList, "g.xml".toList], .file (Encoding.encode
        "<member name='T:\uFEFFG'><summary>\uD7FF\uE000\uFFFF😀</summary></member>" .utf8))]

def markedOptions : Options :=
  { manifest := ⟨"g.json"⟩, docFile := none, output := none, format := "text",
    encoding := .utf8, namespaces := [], listMembers := false, verbose := false }

def markedSheet : Sheet :=
  ⟨"\uFEFFG", "\uFEFFG", some "\uD7FF\uE000\uFFFF😀", [], []⟩

/-- The premises hold of a run that prints this type, with an output in another directory
and in either encoding. -/
theorem output_says_what_is_printed_marked :
    markedOptions.output = none ∧ markedOptions.listMembers = false ∧
      (run markedOptions ["w".toList] markedTree).failure = none ∧
      validatePaths markedOptions.manifest (docFileOf markedOptions) (some ⟨"../o"⟩) = .ok () ∧
      markedTree.target ["w".toList] ⟨"../o"⟩ = .ok ["o".toList] ∧
      (run markedOptions ["w".toList] markedTree).stdout = Sheet.plainText [markedSheet] ∧
      ∀ encoding, ∃ bytes,
        (run { markedOptions with output := some ⟨"../o"⟩, encoding } ["w".toList]
          markedTree).tree.read ["w".toList] ⟨"../o"⟩ = .ok bytes ∧
        Encoding.decode? bytes encoding = some (Sheet.plainText [markedSheet]) := by
  have hsucceeds : (run markedOptions ["w".toList] markedTree).failure = none := by
    decide +kernel
  have hvalid : validatePaths markedOptions.manifest (docFileOf markedOptions)
      (some ⟨"../o"⟩) = .ok () := by decide +kernel
  have htarget : markedTree.target ["w".toList] ⟨"../o"⟩ = .ok ["o".toList] := by
    decide +kernel
  have hstdout : (run markedOptions ["w".toList] markedTree).stdout =
      Sheet.plainText [markedSheet] := by decide +kernel
  refine ⟨rfl, rfl, hsucceeds, hvalid, htarget, hstdout, fun encoding ↦ ?_⟩
  obtain ⟨-, -, hread⟩ := output_says_what_is_printed.2.2.2 markedOptions ["w".toList] markedTree
    ⟨"../o"⟩ encoding rfl rfl hsucceeds hvalid ⟨_, htarget⟩
  rwa [hstdout] at hread

end Run

end DocSheet
