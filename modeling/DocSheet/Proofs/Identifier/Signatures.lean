import DocSheet.Comment.DocFile
import DocSheet.Proofs.Identifier.Naming
import Mathlib.Data.List.Induction
import Mathlib.Data.List.Infix

/-!
# Signatures

A signature is written as the types of its parameters between commas, and a type may hold
commas of its own as long as they stand inside brackets. The split counts the open brackets
of all kinds together, so behind each beginning of a type it stands at the number of brackets
that are open there. Hence it cuts between the types and nowhere else, and a method gets back
the types that were written.

The path in front of the parentheses is split without a look at what is behind them.
-/

namespace DocSheet.Identifier

open Text DocFile

/-! ## Types -/

/-- What a character adds to the number of open brackets. The three kinds count alike. -/
def bracketWeight (c : Char) : Int :=
  if c ∈ ['\x7b', '[', '('] then 1
  else if c ∈ ['\x7d', ']', ')'] then -1
  else 0

/-- The brackets that a text opens, less those that it closes. -/
def bracketBalance : List Char → Int
  | [] => 0
  | c :: text => bracketWeight c + bracketBalance text

@[simp]
theorem bracketBalance_nil : bracketBalance [] = 0 := rfl

@[simp]
theorem bracketBalance_append (first second : List Char) :
    bracketBalance (first ++ second) = bracketBalance first + bracketBalance second := by
  induction first with
  | nil => simp
  | cons c first ih => rw [List.cons_append, bracketBalance, bracketBalance, ih, Int.add_assoc]

@[simp]
theorem bracketBalance_singleton (c : Char) : bracketBalance [c] = bracketWeight c := by
  simp [bracketBalance]

/-- Whether a text can be one type of a list: its brackets are balanced, and every comma
stands inside one. -/
structure IsType (type : List Char) : Prop where
  balanced : bracketBalance type = 0
  opened_first : ∀ before, before <+: type → 0 ≤ bracketBalance before
  commas_inside : ∀ before, before ++ [','] <+: type → bracketBalance before ≠ 0

theorem isType_iff {type : List Char} :
    IsType type ↔ bracketBalance type = 0 ∧ ∀ before ∈ type.inits,
      0 ≤ bracketBalance before ∧ (before ++ [','] <+: type → bracketBalance before ≠ 0) := by
  simp only [List.mem_inits]
  constructor
  · intro h
    exact ⟨h.balanced, fun before hbefore ↦ ⟨h.opened_first before hbefore, h.commas_inside before⟩⟩
  · rintro ⟨hbalanced, hinside⟩
    refine ⟨hbalanced, fun before hbefore ↦ (hinside before hbefore).1, fun before hcomma ↦ ?_⟩
    have hbefore : before <+: type := (List.prefix_append before [',']).trans hcomma
    exact (hinside before hbefore).2 hcomma

instance (type : List Char) : Decidable (IsType type) :=
  decidable_of_iff _ isType_iff.symm

theorem depthAfter_eq_toNat (c : Char) (depth : Nat) :
    depthAfter c depth = (depth + bracketWeight c).toNat := by
  unfold depthAfter bracketWeight
  split
  · rfl
  · split <;> omega

/-! ## The split of a list -/

theorem foldr_extendFirst (type first : List Char) (more : List (List Char)) :
    type.foldr extendFirst (first :: more) = (type ++ first) :: more := by
  induction type with
  | nil => rfl
  | cons c type ih => rw [List.foldr_cons, ih, extendFirst, List.cons_append]

/-- Behind the beginning of a type the split goes on at the depth of the brackets that are
open there. By induction on the beginning, its last character first: a comma there is inside
a bracket. -/
theorem splitTypes_append {type before : List Char} (h : IsType type) (hbefore : before <+: type)
    (rest : List Char) :
    splitTypes 0 (before ++ rest) =
      before.foldr extendFirst (splitTypes (bracketBalance before).toNat rest) := by
  induction before using List.reverseRecOn generalizing rest with
  | nil => rfl
  | append_singleton before c ih =>
    have hshorter : before <+: type := (List.prefix_append before [c]).trans hbefore
    have hopen : 0 ≤ bracketBalance before := h.opened_first before hshorter
    have hcomma : ¬(c = ',' ∧ (bracketBalance before).toNat = 0) := by
      rintro ⟨rfl, hdepth⟩
      apply h.commas_inside before hbefore
      omega
    have hdepth : depthAfter c (bracketBalance before).toNat =
        (bracketBalance (before ++ [c])).toNat := by
      rw [depthAfter_eq_toNat, Int.toNat_of_nonneg hopen, bracketBalance_append,
        bracketBalance_singleton]
    rw [List.append_assoc, List.singleton_append, ih hshorter, splitTypes, if_neg hcomma, hdepth,
      List.foldr_append]
    rfl

/-- A type is one text of a split, in front of a comma or at the end. -/
theorem splitTypes_type {type : List Char} (h : IsType type) : splitTypes 0 type = [type] := by
  have hsplit := splitTypes_append h List.prefix_rfl []
  rwa [List.append_nil, h.balanced, Int.toNat_zero, splitTypes, foldr_extendFirst,
    List.append_nil] at hsplit

theorem splitTypes_type_comma {type : List Char} (h : IsType type) (rest : List Char) :
    splitTypes 0 (type ++ ',' :: rest) = type :: splitTypes 0 rest := by
  have hcut : splitTypes 0 (',' :: rest) = [] :: splitTypes 0 rest := by
    rw [splitTypes, if_pos ⟨rfl, rfl⟩]
  rw [splitTypes_append h List.prefix_rfl, h.balanced, Int.toNat_zero, hcut, foldr_extendFirst,
    List.append_nil]

theorem splitTypes_intercalate {types : List (List Char)} (hne : types ≠ [])
    (h : ∀ type ∈ types, IsType type) : splitTypes 0 ([','].intercalate types) = types := by
  induction types with
  | nil => exact absurd rfl hne
  | cons type types ih =>
    rw [List.forall_mem_cons] at h
    cases types with
    | nil => simpa using splitTypes_type h.1
    | cons next more =>
      rw [List.intercalate_cons_cons, List.append_assoc, List.singleton_append,
        splitTypes_type_comma h.1, ih (List.cons_ne_nil next more) h.2]

/-- A list of types is read back from its text, but for a lone empty one, whose text is that
of no types. -/
theorem typeList_intercalate {types : List (List Char)} (hlone : types ≠ [[]])
    (h : ∀ type ∈ types, IsType type) : typeList ([','].intercalate types) = types := by
  cases types with
  | nil => rfl
  | cons type more =>
    have hne : [','].intercalate (type :: more) ≠ [] := by
      cases more with
      | nil => simpa using hlone
      | cons next more => simp [List.intercalate_cons_cons]
    rw [typeList, List.isEmpty_eq_false_iff.2 hne]
    exact splitTypes_intercalate (List.cons_ne_nil type more) h

/-! ## Methods -/

/-- A method written with a signature has the path and the name that it has without. -/
theorem ofPath_method_signature {dotted : List Char} (h : '(' ∉ dotted) (list : List Char) :
    ofPath .method (dotted ++ '(' :: list) =
      { ofPath .method dotted with
        parameterTypes := some ((typeList (dropEnd ')' list)).map String.ofList) } := by
  simp only [ofPath_method, splitSignature, cutFirst_append_cons h, cutFirst_eq_none_iff.2 h,
    Option.map_some]

theorem decode_ofLetter_method (path : String) :
    decode (ofLetter 'M' path) = some (ofPath .method path.toList) :=
  decode_eq_some_iff.2 ⟨'M', path.toList, .method, toList_ofLetter 'M' path, rfl, rfl⟩

/-- Parameters are paired in order, as long as there are types. -/
theorem getElem?_pairTypes (described : List (String × String)) (types : List String)
    (position : Nat) :
    (Record.pairTypes described types)[position]? =
      described[position]?.map fun parameter ↦
        ⟨parameter.1, parameter.2, types[position]?⟩ := by
  induction described generalizing types position with
  | nil => rfl
  | cons parameter described ih =>
    cases types with
    | nil =>
      cases position with
      | zero => rfl
      | succ position => simp [Record.pairTypes, ih]
    | cons type types =>
      cases position with
      | zero => rfl
      | succ position => simp [Record.pairTypes, ih]

/-- A member with a summary that is decoded as a method has a record with all its described
parameters, each with the type at its position, if there is one. -/
theorem exists_record_of_method {entry : Entry} {summary chars : List Char} {id : Identifier}
    (hsummary : entry.summary = some summary) (hdecode : decode (String.ofList chars) = some id)
    (hmethod : id.kind = .method) :
    ∃ record, entry.record? chars = some record ∧ record.kind = .method ∧
      record.namespacePath = id.namespacePath ∧ record.name = id.name ∧
      record.description = String.ofList summary ∧
      ∀ position : Nat, record.parameters[position]? =
        entry.parameters[position]?.map fun parameter ↦
          ⟨String.ofList parameter.1, String.ofList parameter.2,
            (id.parameterTypes.getD [])[position]?⟩ := by
  let described := entry.parameters.map fun parameter ↦
    (String.ofList parameter.1, String.ofList parameter.2)
  refine ⟨Record.ofIdentifier id (String.ofList summary) described, ?_, hmethod, rfl, rfl, rfl,
    fun position ↦ ?_⟩
  · rw [Entry.record?, hsummary, hdecode]
  · simp [Record.ofIdentifier, hmethod, getElem?_pairTypes, described, Function.comp_def]

/-! ## Signatures in identifiers -/

/-- The list of a signature is read back as the types that it was written from. -/
theorem typeList_signature {types : List String} (hlone : types ≠ [""])
    (htypes : ∀ type ∈ types, IsType type.toList) :
    (typeList (dropEnd ')' (String.intercalate "," types ++ ")").toList)).map String.ofList =
      types := by
  have htext : (String.intercalate "," types ++ ")").toList =
      [','].intercalate (types.map String.toList) ++ [')'] := by simp
  have hchars : types.map String.toList ≠ [[]] := by
    intro hempty
    obtain ⟨type, rfl, htype⟩ := List.map_eq_singleton_iff.1 hempty
    apply hlone
    rw [String.toList_eq_nil_iff.1 htype]
  rw [htext, dropEnd_append_self, typeList_intercalate hchars (List.forall_mem_map.2 htypes)]
  simp

theorem decode_append_list {path : String} (h : '(' ∉ path.toList) (list : String) :
    decode (ofLetter 'M' (path ++ "(" ++ list)) =
      some { ofPath .method path.toList with
        parameterTypes := some ((typeList (dropEnd ')' list.toList)).map String.ofList) } := by
  have hsplit : (path ++ "(" ++ list).toList = path.toList ++ '(' :: list.toList := by simp
  rw [decode_ofLetter_method, hsplit, ofPath_method_signature h]

/-- A method whose signature lists types is decoded to those types, below the path and under
the name that it has without a signature; whatever stands behind the first parenthesis leaves
both alone. A member of that identifier with a summary has a record, in which each described
parameter has the type at its position, if there is one. -/
theorem decode_signature {path : String} (hpath : '(' ∉ path.toList) {types : List String}
    (hlone : types ≠ [""]) (htypes : ∀ type ∈ types, IsType type.toList) :
    ∃ plain, decode (ofLetter 'M' path) = some plain ∧
      decode (ofLetter 'M' (path ++ "(" ++ (String.intercalate "," types ++ ")"))) =
        some { plain with parameterTypes := some types } ∧
      (∀ rest : String, ∃ id, decode (ofLetter 'M' (path ++ "(" ++ rest)) = some id ∧
        id.namespacePath = plain.namespacePath ∧ id.name = plain.name) ∧
      ∀ (entry : Entry) (summary : List Char), entry.summary = some summary →
        ∃ record, entry.record?
            (ofLetter 'M' (path ++ "(" ++ (String.intercalate "," types ++ ")"))).toList =
              some record ∧
          record.kind = .method ∧ record.namespacePath = plain.namespacePath ∧
          record.name = plain.name ∧ record.description = String.ofList summary ∧
          ∀ position : Nat, record.parameters[position]? =
            entry.parameters[position]?.map fun parameter ↦
              ⟨String.ofList parameter.1, String.ofList parameter.2, types[position]?⟩ := by
  have hdecode := decode_append_list hpath (String.intercalate "," types ++ ")")
  rw [typeList_signature hlone htypes] at hdecode
  refine ⟨_, decode_ofLetter_method path, hdecode, ?_, ?_⟩
  · intro rest
    exact ⟨_, decode_append_list hpath rest, rfl, rfl⟩
  · intro entry summary hsummary
    have hchars := hdecode
    rw [← String.ofList_toList (s := ofLetter 'M' _)] at hchars
    exact exists_record_of_method hsummary hchars rfl

/-- Types with commas, dots and brackets of every kind inside, and an empty one. -/
def mixedTypes : List String :=
  ["Map\x7bA.B,C[0:,0:]\x7d@", "", "F(X,(Y,Z])"]

/-- The premises hold of the mixed types, behind a path with a nested constructor. Only the
first of two described parameters of another member has a type. -/
theorem decode_signature_mixed :
    '(' ∉ "Geo.Ring+Arc.#ctor".toList ∧ mixedTypes ≠ [""] ∧
      (∀ type ∈ mixedTypes, IsType type.toList) ∧
      decode "M:Geo.Ring+Arc.#ctor(Map\x7bA.B,C[0:,0:]\x7d@,,F(X,(Y,Z]))" =
        some ⟨.method, "Geo.Ring.Arc", "Arc", some mixedTypes⟩ ∧
      ∃ record, Entry.record? ⟨some [], [(['a'], []), (['b'], ['t'])]⟩
          "M:f(int)".toList = some record ∧
        record.parameters[0]? = some ⟨"a", "", some "int"⟩ ∧
        record.parameters[1]? = some ⟨"b", "t", none⟩ ∧ record.parameters[2]? = none := by
  have hpath : '(' ∉ "Geo.Ring+Arc.#ctor".toList := by decide
  have hlone : mixedTypes ≠ [""] := by decide
  have htypes : ∀ type ∈ mixedTypes, IsType type.toList := by decide
  obtain ⟨plain, hplain, hdecode, -⟩ := decode_signature hpath hlone htypes
  have hnames : decode (ofLetter 'M' "Geo.Ring+Arc.#ctor") =
      some ⟨.method, "Geo.Ring.Arc", "Arc", none⟩ := by decide +kernel
  obtain rfl : plain = ⟨.method, "Geo.Ring.Arc", "Arc", none⟩ :=
    Option.some.inj (hplain.symm.trans hnames)
  have hshort : '(' ∉ "f".toList := by decide
  have hint : ∀ type ∈ ["int"], IsType type.toList := by decide
  obtain ⟨method, -, -, -, hrecord⟩ := decode_signature hshort (by decide) hint
  obtain ⟨record, hrecord, -, -, -, -, hparameters⟩ :=
    hrecord ⟨some [], [(['a'], []), (['b'], ['t'])]⟩ [] rfl
  exact ⟨hpath, hlone, htypes, hdecode, record, hrecord, hparameters 0, hparameters 1,
    hparameters 2⟩

end DocSheet.Identifier
