import DocSheet.Comment.Identifier
import DocSheet.Proofs.Text.Separators

/-!
# Normal forms of identifiers

A decoded identifier is in a normal form: its name has no separator, its path has no
nesting sign, and the path of a method has no parenthesis and names a constructor for
its type. The normal forms are the identifiers that decoding gives back from their own
spelling, so decoding again changes nothing.
-/

namespace DocSheet.Identifier

open Text

/-! ## Parameter lists -/

theorem splitTypes_ne_nil (depth : Nat) (list : List Char) : splitTypes depth list ≠ [] := by
  cases list with
  | nil => simp [splitTypes]
  | cons c rest =>
    rw [splitTypes]
    split
    · simp
    · cases splitTypes (depthAfter c depth) rest <;> simp [extendFirst]

theorem intercalate_extendFirst (c : Char) {texts : List (List Char)} (h : texts ≠ []) :
    [','].intercalate (extendFirst c texts) = c :: [','].intercalate texts := by
  cases texts with
  | nil => exact absurd rfl h
  | cons first more => cases more <;> simp [extendFirst, List.intercalate_cons_cons]

/-- The split at commas loses nothing, whatever the depth it starts from. -/
theorem intercalate_splitTypes (depth : Nat) (list : List Char) :
    [','].intercalate (splitTypes depth list) = list := by
  induction list generalizing depth with
  | nil => simp [splitTypes]
  | cons c rest ih =>
    rw [splitTypes]
    split
    · next hcomma =>
      obtain ⟨first, more, hsplit⟩ := List.exists_cons_of_ne_nil (splitTypes_ne_nil 0 rest)
      rw [hsplit, List.intercalate_cons_cons, ← hsplit, ih 0, hcomma.1]
      rfl
    · rw [intercalate_extendFirst c (splitTypes_ne_nil _ rest), ih]

theorem intercalate_typeList (list : List Char) : [','].intercalate (typeList list) = list := by
  cases list with
  | nil => rfl
  | cons c rest => exact intercalate_splitTypes 0 (c :: rest)

/-! ## Signatures -/

theorem not_mem_splitSignature_fst (path : List Char) : '(' ∉ (splitSignature path).1 := by
  unfold splitSignature
  cases hcut : cutFirst '(' path with
  | none => exact cutFirst_eq_none_iff.1 hcut
  | some parts => exact (cutFirst_eq_some_iff.1 hcut).2

/-- The types of a signature come from one list, in which nothing else is kept. -/
theorem exists_typeList_of_splitSignature {path : List Char} {types : List (List Char)}
    (h : (splitSignature path).2 = some types) : ∃ list, types = typeList list := by
  unfold splitSignature at h
  cases hcut : cutFirst '(' path with
  | none => simp [hcut] at h
  | some parts =>
    simp only [hcut, Option.some.injEq] at h
    exact ⟨_, h.symm⟩

theorem splitSignature_of_not_mem {dotted : List Char} (h : '(' ∉ dotted) :
    splitSignature dotted = (dotted, none) := by
  rw [splitSignature, cutFirst_eq_none_iff.2 h]

theorem splitSignature_append_list {dotted : List Char} (h : '(' ∉ dotted)
    (list : List Char) :
    splitSignature (dotted ++ '(' :: (list ++ [')'])) = (dotted, some (typeList list)) := by
  rw [splitSignature, cutFirst_append_cons h]
  simp

/-! ## Paths -/

/-- The characters of a joined path. -/
def joinSegments (namespacePath name : List Char) : List Char :=
  if namespacePath = [] then name else namespacePath ++ '.' :: name

theorem toList_joinPath (namespacePath name : String) :
    (joinPath namespacePath name).toList =
      joinSegments namespacePath.toList name.toList := by
  unfold joinPath joinSegments
  by_cases h : namespacePath = ""
  · simp [h]
  · simp [h, String.isEmpty_iff]

theorem not_mem_joinSegments {c : Char} {namespacePath name : List Char} (hdot : c ≠ '.')
    (hpath : c ∉ namespacePath) (hname : c ∉ name) : c ∉ joinSegments namespacePath name := by
  unfold joinSegments
  split
  · exact hname
  · simp [hdot, hpath, hname]

/-- A path is split at the last dot that it has once its nesting signs are flat. -/
theorem splitPath_cases (path : List Char) :
    ('.' ∉ replace '+' '.' path ∧ splitPath path = ([], replace '+' '.' path)) ∨
    ∃ before after, replace '+' '.' path = before ++ '.' :: after ∧ '.' ∉ after ∧
      splitPath path = (before, after) := by
  cases hcut : cutLast '.' (replace '+' '.' path) with
  | none => exact Or.inl ⟨cutLast_eq_none_iff.1 hcut, by rw [splitPath, hcut]; rfl⟩
  | some parts =>
    obtain ⟨hflat, hdot⟩ := cutLast_eq_some_iff.1 hcut
    exact Or.inr ⟨parts.1, parts.2, hflat, hdot, by rw [splitPath, hcut]; rfl⟩

theorem not_mem_splitPath_snd (path : List Char) : '.' ∉ (splitPath path).2 := by
  rcases splitPath_cases path with ⟨hdot, hsplit⟩ | ⟨before, after, -, hdot, hsplit⟩
  · rw [hsplit]
    exact hdot
  · rw [hsplit]
    exact hdot

/-- The parts of a split path bring in no character. -/
theorem mem_replace_of_mem_splitPath {path : List Char} {c : Char}
    (h : c ∈ (splitPath path).1 ∨ c ∈ (splitPath path).2) : c ∈ replace '+' '.' path := by
  rcases splitPath_cases path with ⟨-, hsplit⟩ | ⟨before, after, hflat, -, hsplit⟩
  · simpa [hsplit] using h
  · rw [hsplit] at h
    rw [hflat]
    rcases h with hbefore | hafter
    · exact List.mem_append_left _ hbefore
    · exact List.mem_append_right _ (List.mem_cons_of_mem _ hafter)

theorem plus_not_mem_splitPath (path : List Char) :
    '+' ∉ (splitPath path).1 ∧ '+' ∉ (splitPath path).2 := by
  have hflat : '+' ∉ replace '+' '.' path := not_mem_replace (by decide) path
  exact ⟨fun h ↦ hflat (mem_replace_of_mem_splitPath (Or.inl h)),
    fun h ↦ hflat (mem_replace_of_mem_splitPath (Or.inr h))⟩

theorem not_mem_splitPath {path : List Char} {c : Char} (hdot : c ≠ '.') (h : c ∉ path) :
    c ∉ (splitPath path).1 ∧ c ∉ (splitPath path).2 := by
  have hflat : c ∉ replace '+' '.' path := by
    intro hmem
    rcases mem_of_mem_replace hmem with hpath | heq
    · exact h hpath
    · exact hdot heq
  exact ⟨fun hfst ↦ hflat (mem_replace_of_mem_splitPath (Or.inl hfst)),
    fun hsnd ↦ hflat (mem_replace_of_mem_splitPath (Or.inr hsnd))⟩

theorem splitPath_joinSegments {namespacePath name : List Char} (hdot : '.' ∉ name)
    (hplus : '+' ∉ joinSegments namespacePath name) :
    splitPath (joinSegments namespacePath name) = (namespacePath, name) := by
  rw [splitPath, replace_eq_self hplus]
  unfold joinSegments
  split
  · next hempty => rw [cutLast_eq_none_iff.2 hdot, hempty]; rfl
  · rw [cutLast_append_cons hdot]; rfl

/-! ## Constructors -/

/-- A method keeps its name, or is a constructor and takes the name of its type. -/
theorem methodName_cases (namespacePath name : List Char) :
    methodName namespacePath name = name ∨
    methodName namespacePath name = lastSegment (· == '.') namespacePath ∧
      lastSegment (· == '.') namespacePath ≠ [] := by
  by_cases h : (occurs constructorMarker name &&
      !(lastSegment (· == '.') namespacePath).isEmpty) = true
  · right
    refine ⟨if_pos h, ?_⟩
    simpa using (Bool.and_eq_true_iff.1 h).2
  · exact Or.inl (if_neg h)

/-- A constructor is renamed once: the name of its type stays, even if it has the marker. -/
theorem methodName_methodName (namespacePath name : List Char) :
    methodName namespacePath (methodName namespacePath name) =
      methodName namespacePath name := by
  rcases methodName_cases namespacePath name with h | ⟨h, -⟩
  · rw [h, h]
  · rw [h]
    rcases methodName_cases namespacePath (lastSegment (· == '.') namespacePath) with
      hsame | ⟨hsame, -⟩
    · exact hsame
    · exact hsame

theorem not_mem_methodName {namespacePath name : List Char} {c : Char}
    (hpath : c ∉ namespacePath) (hname : c ∉ name) : c ∉ methodName namespacePath name := by
  rcases methodName_cases namespacePath name with heq | ⟨heq, -⟩
  · rwa [heq]
  · rw [heq]
    exact fun h ↦ hpath ((lastSegment_suffix _ _).mem h)

theorem dot_not_mem_methodName {namespacePath name : List Char} (h : '.' ∉ name) :
    '.' ∉ methodName namespacePath name := by
  rcases methodName_cases namespacePath name with heq | ⟨heq, -⟩
  · rwa [heq]
  · rw [heq]
    intro hmem
    simpa using isSep_of_mem_lastSegment hmem

/-! ## Normal forms -/

/-- What decoding leaves of an identifier. -/
structure Normal (id : Identifier) : Prop where
  name_no_dot : '.' ∉ id.name.toList
  path_no_plus : '+' ∉ id.namespacePath.toList
  name_no_plus : '+' ∉ id.name.toList
  path_no_parenthesis : id.kind = .method → '(' ∉ id.namespacePath.toList
  name_no_parenthesis : id.kind = .method → '(' ∉ id.name.toList
  name_settled : id.kind = .method →
    methodName id.namespacePath.toList id.name.toList = id.name.toList
  types_listed : ∀ types, id.parameterTypes = some types →
    id.kind = .method ∧ ∃ list, types = (typeList list).map String.ofList

/-- The letter, the colon and the path that an identifier is decoded from. -/
theorem decode_eq_some_iff {text : String} {id : Identifier} :
    decode text = some id ↔ ∃ letter path kind, text.toList = letter :: ':' :: path ∧
      MemberKind.ofLetter? letter = some kind ∧ ofPath kind path = id := by
  unfold decode
  constructor
  · intro h
    split at h
    · next letter path htext =>
      obtain ⟨kind, hkind, hpath⟩ := Option.map_eq_some_iff.1 h
      exact ⟨letter, path, kind, htext, hkind, hpath⟩
    · simp at h
  · rintro ⟨letter, path, kind, htext, hkind, hpath⟩
    simp [htext, hkind, hpath]

/-- Kinds other than methods have their whole path split. -/
theorem ofPath_of_ne_method {kind : MemberKind} (h : kind ≠ .method) (path : List Char) :
    ofPath kind path = ⟨kind, String.ofList (splitPath path).1,
      String.ofList (splitPath path).2, none⟩ := by
  cases kind with
  | method => exact absurd rfl h
  | type => rfl
  | field => rfl
  | property => rfl

theorem ofPath_method (path : List Char) :
    ofPath .method path =
      ⟨.method, String.ofList (splitPath (splitSignature path).1).1,
        String.ofList (methodName (splitPath (splitSignature path).1).1
          (splitPath (splitSignature path).1).2),
        (splitSignature path).2.map (·.map String.ofList)⟩ := rfl

theorem normal_ofPath (kind : MemberKind) (path : List Char) : (ofPath kind path).Normal := by
  by_cases hkind : kind = .method
  · subst hkind
    rw [ofPath_method]
    have hdot := not_mem_splitPath_snd (splitSignature path).1
    have hplus := plus_not_mem_splitPath (splitSignature path).1
    have hopen := not_mem_splitPath (by decide) (not_mem_splitSignature_fst path)
    refine ⟨?_, ?_, ?_, fun _ ↦ ?_, fun _ ↦ ?_, fun _ ↦ ?_, fun types htypes ↦ ⟨rfl, ?_⟩⟩
    · simpa using dot_not_mem_methodName hdot
    · simpa using hplus.1
    · simpa using not_mem_methodName hplus.1 hplus.2
    · simpa using hopen.1
    · simpa using not_mem_methodName hopen.1 hopen.2
    · simpa using methodName_methodName _ _
    · obtain ⟨texts, htexts, rfl⟩ := Option.map_eq_some_iff.1 htypes
      obtain ⟨list, rfl⟩ := exists_typeList_of_splitSignature htexts
      exact ⟨list, rfl⟩
  · rw [ofPath_of_ne_method hkind]
    have hplus := plus_not_mem_splitPath path
    refine ⟨?_, ?_, ?_, fun h ↦ absurd h hkind, fun h ↦ absurd h hkind,
      fun h ↦ absurd h hkind, fun types htypes ↦ ?_⟩
    · simpa using not_mem_splitPath_snd path
    · simpa using hplus.1
    · simpa using hplus.2
    · simp at htypes

theorem normal_of_decode {text : String} {id : Identifier} (h : decode text = some id) :
    id.Normal := by
  obtain ⟨letter, path, kind, -, -, rfl⟩ := decode_eq_some_iff.1 h
  exact normal_ofPath kind path

/-! ## Spelling -/

/-- The parameter list of an identifier as it is written. -/
def listText : Option (List String) → List Char
  | none => []
  | some types => '(' :: ([','].intercalate (types.map String.toList) ++ [')'])

theorem toList_spell (id : Identifier) :
    id.spell.toList = id.kind.letter :: ':' ::
      (joinSegments id.namespacePath.toList id.name.toList ++ listText id.parameterTypes) := by
  rw [← toList_joinPath]
  cases htypes : id.parameterTypes with
  | none => simp [spell, joined, htypes, listText]
  | some types => simp [spell, joined, htypes, listText]

/-- The path that a normal form spells is split back into its two parts. -/
theorem Normal.splitPath_joinSegments {id : Identifier} (h : id.Normal) :
    splitPath (joinSegments id.namespacePath.toList id.name.toList) =
      (id.namespacePath.toList, id.name.toList) :=
  Identifier.splitPath_joinSegments h.name_no_dot
    (not_mem_joinSegments (by decide) h.path_no_plus h.name_no_plus)

/-- The signature that a normal form spells is split back into its path and types. -/
theorem Normal.splitSignature_spelled {id : Identifier} (h : id.Normal)
    (hkind : id.kind = .method) :
    splitSignature
        (joinSegments id.namespacePath.toList id.name.toList ++ listText id.parameterTypes) =
      (joinSegments id.namespacePath.toList id.name.toList,
        id.parameterTypes.map (·.map String.toList)) := by
  have hopen := not_mem_joinSegments (by decide) (h.path_no_parenthesis hkind)
    (h.name_no_parenthesis hkind)
  cases htypes : id.parameterTypes with
  | none => simpa [listText] using splitSignature_of_not_mem hopen
  | some types =>
    obtain ⟨-, list, rfl⟩ := h.types_listed types htypes
    have hlist : ((typeList list).map String.ofList).map String.toList = typeList list := by
      simp
    rw [listText, hlist, intercalate_typeList, splitSignature_append_list hopen]
    simp

theorem Normal.ofPath_spelled {id : Identifier} (h : id.Normal) :
    ofPath id.kind
      (joinSegments id.namespacePath.toList id.name.toList ++ listText id.parameterTypes) =
        id := by
  by_cases hkind : id.kind = .method
  · rw [hkind, ofPath_method, h.splitSignature_spelled hkind]
    simp only [h.splitPath_joinSegments, h.name_settled hkind, String.ofList_toList]
    cases id
    simp_all [Function.comp_def]
  · have hnone : id.parameterTypes = none := by
      rw [Option.eq_none_iff_forall_ne_some]
      exact fun types htypes ↦ hkind (h.types_listed types htypes).1
    rw [ofPath_of_ne_method hkind, hnone, listText, List.append_nil, h.splitPath_joinSegments]
    cases id
    simp_all

/-- The normal forms are the identifiers that come back from their own spelling. -/
theorem normal_iff_decode_spell {id : Identifier} :
    id.Normal ↔ decode id.spell = some id := by
  constructor
  · intro h
    exact decode_eq_some_iff.2 ⟨id.kind.letter, _, id.kind, toList_spell id,
      MemberKind.ofLetter?_letter id.kind, h.ofPath_spelled⟩
  · exact normal_of_decode

/-- Decoding again what a decoded identifier spells gives the same identifier. -/
theorem decode_spell_of_decode {text : String} {id : Identifier} (h : decode text = some id) :
    decode id.spell = some id :=
  normal_iff_decode_spell.1 (normal_of_decode h)

/-- A nested constructor with an unbalanced list, whose inner comma stays and whose closing
parenthesis is missing. -/
theorem decode_spell_of_decode_constructor :
    decode "m:.Geo+Ring.#ctor(Map[A,B\x7d\x7d,,(C" =
        some ⟨.method, ".Geo.Ring", "Ring", some ["Map[A,B\x7d\x7d", "", "(C"]⟩ ∧
      decode (spell ⟨.method, ".Geo.Ring", "Ring", some ["Map[A,B\x7d\x7d", "", "(C"]⟩) =
        some ⟨.method, ".Geo.Ring", "Ring", some ["Map[A,B\x7d\x7d", "", "(C"]⟩ := by
  have hdecode : decode "m:.Geo+Ring.#ctor(Map[A,B\x7d\x7d,,(C" =
      some ⟨.method, ".Geo.Ring", "Ring", some ["Map[A,B\x7d\x7d", "", "(C"]⟩ := by
    decide +kernel
  exact ⟨hdecode, decode_spell_of_decode hdecode⟩

end DocSheet.Identifier
