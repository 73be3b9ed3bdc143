import DocSheet.Proofs.Comment.Runs
import DocSheet.Proofs.Json.Denotation
import DocSheet.Proofs.Manifest.Reading
import DocSheet.Proofs.Sheet.Records
import DocSheet.Sheet.Json
import DocSheet.Sheet.PlainText
import Mathlib.Tactic.NormNum

/-!
# Integer constants

An integer that a manifest has for a constant or an enumeration value is printed digit by
digit if it fits in 64 bits, with a sign or without. Any other one, and the zero with a
minus, is read as a binary fraction and printed as the shortest decimal of that. It
survives only where this decimal is the integer itself, so never with more than seventeen
digits in front of its last zeros, and one beyond the greatest fraction is refused.
-/

namespace DocSheet

namespace Json

/-- The text of an integer: its digits, with a minus in front or without. -/
def integerLiteral (negative : Bool) (n : Nat) : List Char :=
  Spelling.signChars negative ++ Nat.toDigits 10 n

def signed (negative : Bool) (n : Nat) : Int :=
  if negative then -n else n

/-! ## What an integer is read as -/

namespace Numeral

variable {negative : Bool} {n : Nat} {number : Number}

theorem scan_integerLiteral (negative : Bool) (n : Nat) :
    scan (integerLiteral negative n) = .ok (ofNat negative n, []) := by
  cases negative with
  | false => exact scan_toDigits n
  | true => exact scan_minus_toDigits n

theorem ofText?_integerLiteral (negative : Bool) (n : Nat) :
    Number.ofText? (String.ofList (integerLiteral negative n)) = (ofNat negative n).value? := by
  rw [Number.ofText?, String.toList_ofList, scan_integerLiteral]

theorem fits_signed_iff :
    (Number.integer (signed negative n)).Fits ↔
      negative = false ∧ n ≤ greatest ∨ negative = true ∧ n ≤ Nat.pow 2 63 := by
  have hgreatest : greatest = 18446744073709551615 := rfl
  cases negative with
  | false =>
    simp [Number.Fits, signed, hgreatest]
    omega
  | true =>
    simp [Number.Fits, signed]
    omega

/-- The two ways in which an integer is read. -/
theorem integer_or_fraction (h : (ofNat negative n).value? = some number) :
    (Number.integer (signed negative n)).Fits ∧ number = .integer (signed negative n) ∨
      (¬(Number.integer (signed negative n)).Fits ∨ n = 0 ∧ negative = true) ∧
        ∃ magnitude, (ofNat negative n).magnitude? = some magnitude ∧
          number = .fraction negative magnitude := by
  rw [fits_signed_iff]
  by_cases hfraction : greatest < n ∨ negative = true ∧ (n = 0 ∨ Nat.pow 2 63 < n)
  · right
    rw [value?_ofNat_fraction hfraction] at h
    obtain ⟨magnitude, hmagnitude, rfl⟩ := Option.map_eq_some_iff.1 h
    refine ⟨?_, magnitude, hmagnitude, rfl⟩
    have hhalf : Nat.pow 2 63 < greatest := by decide
    obtain hgreat | ⟨rfl, rfl | hrange⟩ := hfraction
    · left
      rintro (⟨-, hle⟩ | ⟨-, hle⟩)
      · omega
      · omega
    · exact .inr ⟨rfl, rfl⟩
    · left
      rintro (⟨hplain, -⟩ | ⟨-, hle⟩)
      · cases hplain
      · omega
  · left
    rw [not_or] at hfraction
    cases negative with
    | false =>
      have hle : n ≤ greatest := Nat.not_lt.1 hfraction.1
      rw [value?_ofNat_plain (Nat.lt_of_le_sub_one (by decide) hle)] at h
      exact ⟨.inl ⟨rfl, hle⟩, (Option.some.inj h).symm⟩
    | true =>
      have hpos : 0 < n := Nat.pos_of_ne_zero fun hzero ↦ hfraction.2 ⟨rfl, .inl hzero⟩
      have hle : n ≤ Nat.pow 2 63 := Nat.not_lt.1 fun hrange ↦ hfraction.2 ⟨rfl, .inr hrange⟩
      rw [value?_ofNat_minus hpos hle] at h
      exact ⟨.inr ⟨rfl, hle⟩, (Option.some.inj h).symm⟩

end Numeral

/-! ## What it is printed as -/

theorem denotes_integerLiteral (negative : Bool) (n : Nat) :
    Denotes (integerLiteral negative n) (signed negative n) := by
  have hvalue : ((signed negative n : Int) : ℚ) = (if negative then -1 else 1) * n := by
    cases negative <;> simp [signed]
  rw [hvalue]
  exact Number.denotes_integer negative n

theorem print_signed {negative : Bool} {n : Nat} (h : n ≠ 0 ∨ negative = false) :
    (Number.integer (signed negative n)).print = integerLiteral negative n := by
  cases negative with
  | false => rfl
  | true =>
    obtain ⟨m, rfl⟩ := Nat.exists_eq_succ_of_ne_zero (h.resolve_right Bool.noConfusion)
    rfl

theorem printed_fraction_iff (negative : Bool) (magnitude : Binary64) (n : Nat) :
    (Number.fraction negative magnitude).printed = (signed negative n : Int) ↔
      magnitude.shortest.value = n := by
  cases negative with
  | false => simp [Number.printed, signed]
  | true => simp [Number.printed, signed]

theorem magnitude?_zero : (Numeral.ofNat true 0).magnitude? = some Binary64.zero := by
  decide +kernel

variable {negative : Bool} {n : Nat} {number : Number}

/-- What is printed for an integer denotes it just when it fits in 64 bits or is the
shortest decimal of the fraction that it is read as. -/
theorem denotes_print_signed_iff (h : (Numeral.ofNat negative n).value? = some number) :
    Denotes number.print (signed negative n : Int) ↔
      (Number.integer (signed negative n)).Fits ∨
        ∃ magnitude, number = .fraction negative magnitude ∧ magnitude.shortest.value = n := by
  rw [Number.denotes_print_iff]
  obtain ⟨hfits, rfl⟩ | ⟨hout, magnitude, hmagnitude, rfl⟩ := Numeral.integer_or_fraction h
  · exact ⟨fun _ ↦ .inl hfits, fun _ ↦ rfl⟩
  · rw [printed_fraction_iff]
    constructor
    · exact fun hvalue ↦ .inr ⟨magnitude, rfl, hvalue⟩
    · rintro (hfits | ⟨other, heq, hvalue⟩)
      · obtain ⟨rfl, rfl⟩ := hout.resolve_left (not_not_intro hfits)
        rw [magnitude?_zero, Option.some.injEq] at hmagnitude
        rw [← hmagnitude, Number.value_shortest_zero, Nat.cast_zero]
      · obtain rfl := (Number.fraction.inj heq).2
        exact hvalue

/-- An integer that does not fit in 64 bits is lost if more than seventeen digits stand in
front of its last zeros. -/
theorem pow_dvd_of_denotes (h : (Numeral.ofNat negative n).value? = some number)
    (hout : ¬(Number.integer (signed negative n)).Fits)
    (hdenotes : Denotes number.print (signed negative n : Int)) :
    10 ^ ((Nat.toDigits 10 n).length - 17) ∣ n := by
  obtain hfits | ⟨magnitude, -, hvalue⟩ := (denotes_print_signed_iff h).1 hdenotes
  · exact absurd hfits hout
  · by_cases hzero : magnitude = Binary64.zero
    · rw [hzero, Number.value_shortest_zero, eq_comm, Nat.cast_eq_zero] at hvalue
      rw [hvalue]
      exact dvd_zero _
    · exact Decimal.pow_dvd_of_value (by decide) (Binary64.shortest_coefficient hzero).2 hvalue

end Json

/-! ## Where a manifest has an integer -/

open Json

/-- A text that a manifest may have for a constant or an enumeration value, where it is
read as the number. -/
def ReadAsNumber (text : List Char) (number : Number) : Prop :=
  ∀ depth, Reads (Manifest.constantReader depth) text (some (.number number)) ∧
    Reads (Reader.number depth) text number

/-- A text that a manifest may have for neither. -/
def RefusedAsNumber (text : List Char) (fault : Json.Error) : Prop :=
  ∀ depth blanks rest, Blanks blanks → EndsNumeral rest →
    (Manifest.constantReader depth).run (blanks ++ (text ++ rest)) = .error fault ∧
      (Reader.number depth).run (blanks ++ (text ++ rest)) = .error fault

theorem readAsNumber_of_scan {text : List Char} {numeral : Numeral} {number : Number}
    (hscan : Numeral.scan text = .ok (numeral, [])) (hvalue : numeral.value? = some number) :
    ReadAsNumber text number := by
  have hnumber : ReadsScalar text (Literal.number number).scalar :=
    Numeral.readsScalar hscan hvalue
  exact fun depth ↦ ⟨Manifest.reads_constant_literal hnumber depth, hnumber.reads_number depth⟩

theorem refusedAsNumber_of_scan {text : List Char} {numeral : Numeral}
    (hscan : Numeral.scan text = .ok (numeral, [])) (hvalue : numeral.value? = none) :
    RefusedAsNumber text .numberOutOfRange := by
  obtain ⟨c, behind, rfl, hstart⟩ := Numeral.exists_startOf_of_scan hscan
  intro depth blanks rest hblanks hrest
  have hread : Scalar.read? c (behind ++ rest) = some (.error .numberOutOfRange) := by
    have hnumber := Numeral.readNumber_append_error hscan hvalue hrest
    rw [List.cons_append] at hnumber
    simp only [Scalar.read?, hstart, hnumber]
  have hspace : skipSpace (blanks ++ (c :: behind ++ rest)) = c :: (behind ++ rest) := by
    have hother : startOf c ≠ .other := by
      rw [hstart]
      decide
    rw [List.cons_append, skipSpace_blanks_cons hblanks (isSpace_of_startOf hother)]
  have hvalue : (Reader.value depth).run (blanks ++ (c :: behind ++ rest)) =
      .error .numberOutOfRange := by
    obtain ⟨inner, hinner⟩ := Reader.value_eq_valueAround depth
    rw [hinner]
    simp only [Reader.valueAround, hspace, hread]
  have hnull : c ≠ 'n' := by
    rintro rfl
    cases hstart
  constructor
  · have hoptional : (Reader.value depth).optional.run (blanks ++ (c :: behind ++ rest)) =
        .error .numberOutOfRange := by
      simp only [Reader.optional, hspace]
      split
      · next heq => exact absurd (List.cons.inj heq).1 hnull
      · simp only [Reader.map, hvalue]
    simp only [Manifest.constantReader, hoptional]
  · simp only [Reader.number, hspace, hread]

/-! ## Where a sample shows it -/

/-- The ways in which a manifest gives a member a number: by the enumeration that declares
it, or by a constant of its own. -/
inductive ModuleType.Gives (declaring : ModuleType) (member : Member) (number : Number) : Prop
  | enumValue (henum : declaring.isEnum = true)
      (hvalue : declaring.enumValue? member.name = some number)
  | constant (hvalue : declaring.isEnum = true → declaring.enumValue? member.name = none)
      (hconstant : member.constantValue = some (.number number))

/-- An entry of a sample shows a number: plain text has the print of the number behind the
name, and JSON has the number for the value, which is printed alike. -/
structure SampleEntry.Shows (entry : SampleEntry) (number : Number) : Prop where
  plain : Sheet.sampleLine entry =
    "\t\"" ++ entry.name ++ "\":" ++ String.ofList number.print
  json : ∃ sort, Sheet.valueJson entry.value = Sheet.tagged sort (.number number)

theorem shows_of_gives {declaring : ModuleType} {member : Member} {number : Number}
    (h : declaring.Gives member number) (typeName : String) :
    SampleEntry.Shows ⟨member.name, member.sampleValue declaring typeName⟩ number := by
  have hvalue : member.sampleValue declaring typeName = .enumValue number ∨
      member.sampleValue declaring typeName = .constant (.number number) := by
    cases h with
    | enumValue henum hvalue =>
      left
      simp only [Member.sampleValue, henum, hvalue, if_true]
    | constant hvalue hconstant =>
      right
      have hnone :
          (if declaring.isEnum then declaring.enumValue? member.name else none) = none := by
        split
        · next henum => exact hvalue henum
        · rfl
      simp only [Member.sampleValue, hnone, hconstant]
  obtain hvalue | hvalue := hvalue
  · rw [hvalue]
    exact ⟨rfl, _, rfl⟩
  · rw [hvalue]
    exact ⟨rfl, _, rfl⟩

namespace Assembly

/-- A documented member with a vocabulary name shows the number that the manifest gives it. -/
theorem exists_entry_showing {assembly : Assembly} {type : ModuleType} {sheet : Sheet}
    (hsheet : assembly.sheet? type = some sheet) {member : Member}
    (hmember : member ∈ assembly.documentedMembers type)
    (hname : member.shape.vocabulary?.isSome = true) {number : Number}
    (hgives : (assembly.declaring type member).Gives member number) :
    ∃ entry ∈ sheet.sample, entry.name = member.name ∧ entry.Shows number := by
  obtain ⟨typeName, hname⟩ := Option.isSome_iff_exists.1 hname
  have hentry : assembly.sampleEntry? type member =
      some ⟨member.name, member.sampleValue (assembly.declaring type member) typeName⟩ := by
    unfold Assembly.sampleEntry?
    rw [hname, Option.map_some]
  refine ⟨_, ?_, rfl, shows_of_gives hgives typeName⟩
  rw [sheet?_eq_some hsheet]
  exact List.mem_filterMap.2 ⟨member, hmember, hentry⟩

end Assembly

/-- An integer in a manifest is refused, or read as one number that every sample shows. Its
print denotes the integer just when the integer fits in 64 bits, and then it is the very
text except for the zero with a minus, or is the shortest decimal of the fraction that it
is read as. Beyond 64 bits no integer survives with more than seventeen digits in front of
its last zeros. -/
theorem integerConstant_exact_iff (negative : Bool) (n : Nat) :
    Denotes (integerLiteral negative n) (signed negative n : Int) ∧
    (Number.ofText? (String.ofList (integerLiteral negative n)) = none →
      RefusedAsNumber (integerLiteral negative n) .numberOutOfRange) ∧
    ∀ number, Number.ofText? (String.ofList (integerLiteral negative n)) = some number →
      ReadAsNumber (integerLiteral negative n) number ∧
      (∀ (assembly : Assembly) (type : ModuleType) (sheet : Sheet),
        assembly.sheet? type = some sheet → ∀ member ∈ assembly.documentedMembers type,
          member.shape.vocabulary?.isSome = true →
          (assembly.declaring type member).Gives member number →
          ∃ entry ∈ sheet.sample, entry.name = member.name ∧ entry.Shows number) ∧
      (Denotes number.print (signed negative n : Int) ↔
        (Number.integer (signed negative n)).Fits ∨
          ∃ magnitude, number = .fraction negative magnitude ∧ magnitude.shortest.value = n) ∧
      ((Number.integer (signed negative n)).Fits → n ≠ 0 ∨ negative = false →
        number.print = integerLiteral negative n) ∧
      (¬(Number.integer (signed negative n)).Fits →
        Denotes number.print (signed negative n : Int) →
          10 ^ ((Nat.toDigits 10 n).length - 17) ∣ n) := by
  rw [Numeral.ofText?_integerLiteral]
  have hscan := Numeral.scan_integerLiteral negative n
  refine ⟨denotes_integerLiteral negative n, refusedAsNumber_of_scan hscan, fun number hvalue ↦ ?_⟩
  refine ⟨readAsNumber_of_scan hscan hvalue,
    fun assembly type sheet hsheet member hmember hname hgives ↦
      Assembly.exists_entry_showing hsheet hmember hname hgives,
    denotes_print_signed_iff hvalue, ?_, pow_dvd_of_denotes hvalue⟩
  intro hfits hsign
  obtain ⟨-, rfl⟩ | ⟨hout, -⟩ := Numeral.integer_or_fraction hvalue
  · exact print_signed hsign
  · obtain ⟨rfl, rfl⟩ := hout.resolve_left (not_not_intro hfits)
    simp at hsign

/-- An integer past 64 bits. -/
def pastWord : Nat := 18446744073709551617

/-- The fraction that it is read as, which is 2^64. -/
def wordFraction : Binary64 := ⟨Nat.pow 2 52, 1086, by decide⟩

def decimalMember : Member :=
  ⟨"max", .field, .primitive .decimal, some (.number (.fraction false wordFraction)), none⟩

def decimalType : ModuleType := ⟨"A", "", .classType, [], [decimalMember], []⟩

def decimals : Assembly := ⟨⟨[decimalType]⟩, [], ⟨[]⟩⟩

def decimalSheet : Sheet :=
  ⟨"A", "A", none, [⟨"max", .constant (.number (.fraction false wordFraction))⟩],
    [⟨"max", some "Number", none⟩]⟩

/-- The premises hold of an integer past 64 bits. It is shown, but as another number. -/
theorem integerConstant_exact_iff_pastWord :
    Number.ofText? (String.ofList (integerLiteral false pastWord)) =
        some (.fraction false wordFraction) ∧
      ¬(Number.integer (signed false pastWord)).Fits ∧
      decimals.sheet? decimalType = some decimalSheet ∧
      (∃ entry ∈ decimalSheet.sample, entry.name = "max" ∧
        entry.Shows (.fraction false wordFraction)) ∧
      ¬Denotes (Number.fraction false wordFraction).print (signed false pastWord : Int) := by
  have hvalue : Number.ofText? (String.ofList (integerLiteral false pastWord)) =
      some (.fraction false wordFraction) := by decide +kernel
  have hout : ¬(Number.integer (signed false pastWord)).Fits := by
    rw [Numeral.fits_signed_iff]
    decide
  have hsheet : decimals.sheet? decimalType = some decimalSheet := by decide +kernel
  have hmember : decimalMember ∈ decimals.documentedMembers decimalType := by decide +kernel
  have hgives : (decimals.declaring decimalType decimalMember).Gives decimalMember
      (.fraction false wordFraction) :=
    .constant (fun henum ↦ absurd henum (by decide)) rfl
  obtain ⟨-, -, hread⟩ := integerConstant_exact_iff false pastWord
  obtain ⟨-, hshows, -, -, hdigits⟩ := hread _ hvalue
  refine ⟨hvalue, hout, hsheet, hshows decimals decimalType decimalSheet hsheet decimalMember
    hmember (by decide) hgives, fun hdenotes ↦ ?_⟩
  have hzeros := hdigits hout hdenotes
  revert hzeros
  decide +kernel

def decimalManifest : String :=
  "\x7b\"types\":[\x7b\"full_name\":\"A\",\"members\":[\x7b\"name\":\"max\"," ++
    "\"type\":\x7b\"primitive\":\"decimal\"\x7d,\"constant\":18446744073709551617\x7d]\x7d]\x7d"

/-- A manifest with the integer is read, and its plain text shows 2^64 to seventeen digits. -/
theorem pastWord_rounded :
    Manifest.read decimalManifest = .ok decimals.manifest ∧
      Sheet.plainText decimals.sheets =
        "A - ??\n\n\x7b\n\t\"max\":1.8446744073709552e+19\n\x7d\n\nmax <Number>: ??\n" ++
          Sheet.separator ++ "\n" ∧
      Denotes "1.8446744073709552e+19".toList 18446744073709552000 ∧
      ¬Denotes "1.8446744073709552e+19".toList pastWord := by
  have hdenotes : Denotes "1.8446744073709552e+19".toList 18446744073709552000 := by
    refine ⟨⟨false, [1], [8, 4, 4, 6, 7, 4, 4, 0, 7, 3, 7, 0, 9, 5, 5, 2], some (false, [1, 9])⟩,
      eq_ok_of_toOption (by decide +kernel), ?_⟩
    norm_num [Numeral.rational, Numeral.digitsNumber, Numeral.exponentValue]
  refine ⟨eq_ok_of_toOption (by decide +kernel), by decide +kernel, hdenotes, fun hsame ↦ ?_⟩
  have heq := hdenotes.unique hsame
  norm_num [pastWord] at heq

end DocSheet
