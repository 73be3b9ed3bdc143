import DocSheet.Manifest.Basic
import DocSheet.Proofs.Identifier.NormalForm

/-!
# Identifiers and the names of types

An identifier spells a path with nesting signs, which decoding flattens before it cuts
the path at its last dot. A type flattens its full name to get its doc path, and finds
its own name behind the last separator of either kind. Both ways agree: the parts of a
decoded path join to the flat path, and they are the names that the types of a manifest
go by. The one path that does not come back has a dot in front and no other, since the
global namespace adds no dot.
-/

namespace DocSheet.Identifier

open Text

/-- The text of an identifier: a letter for its kind and a path. -/
def ofLetter (letter : Char) (path : String) : String :=
  String.singleton letter ++ ":" ++ path

/-- Whether the first character of a path is a dot, and the only one. -/
def OnlyDotLeads (path : List Char) : Prop :=
  ∃ name, path = '.' :: name ∧ '.' ∉ name

/-! ## Flat paths -/

/-- The name in a path is what stands behind its last separator of either kind. -/
theorem splitPath_snd (path : List Char) :
    (splitPath path).2 = lastSegment (fun c ↦ c == '.' || c == '+') path := by
  rw [← lastSegment_replace]
  rcases splitPath_cases path with ⟨hdot, hsplit⟩ | ⟨before, after, hflat, hdot, hsplit⟩
  · rw [hsplit]
    symm
    apply lastSegment_eq_self
    intro c hc
    exact beq_false_of_ne fun h ↦ hdot (h ▸ hc)
  · rw [hsplit, hflat]
    have hafter : ∀ c ∈ after, (c == '.') = false :=
      fun c hc ↦ beq_false_of_ne fun h ↦ hdot (h ▸ hc)
    symm
    apply lastSegment_append_cons _ hafter
    rfl

/-- The parts of a path join to the flat path unless its only dot is in front. -/
theorem joinSegments_splitPath_iff (path : List Char) :
    joinSegments (splitPath path).1 (splitPath path).2 = replace '+' '.' path ↔
      ¬OnlyDotLeads (replace '+' '.' path) := by
  rcases splitPath_cases path with ⟨hdot, hsplit⟩ | ⟨before, after, hflat, hdot, hsplit⟩
  · have hnot : ¬OnlyDotLeads (replace '+' '.' path) := by
      rintro ⟨name, hname, -⟩
      apply hdot
      rw [hname]
      exact List.mem_cons_self
    simp [hsplit, joinSegments, hnot]
  · rw [hsplit, hflat]
    cases before with
    | nil =>
      have hleads : OnlyDotLeads ('.' :: after) := ⟨after, rfl, hdot⟩
      simp [joinSegments, hleads]
    | cons c before =>
      have hnot : ¬OnlyDotLeads (c :: (before ++ '.' :: after)) := by
        rintro ⟨name, hname, hfree⟩
        apply hfree
        rw [← (List.cons.inj hname).2]
        simp
      simp [joinSegments, hnot]

/-- Whether a path is the given one once its nesting signs count as dots, up to a dot in
front that is the only one. -/
def LeadsTo (path flat : List Char) : Prop :=
  (replace '+' '.' path = flat ∧ ¬OnlyDotLeads flat) ∨
    (replace '+' '.' path = '.' :: flat ∧ '.' ∉ flat)

/-- The parts of a path join to the paths that it leads to. -/
theorem joinSegments_splitPath_eq_iff {path flat : List Char} :
    joinSegments (splitPath path).1 (splitPath path).2 = flat ↔ LeadsTo path flat := by
  by_cases hleads : OnlyDotLeads (replace '+' '.' path)
  · obtain ⟨name, hflat, hdot⟩ := hleads
    have hsplit : splitPath path = ([], name) := by
      rw [splitPath, hflat, ← List.nil_append ('.' :: name), cutLast_append_cons hdot]
      rfl
    rw [LeadsTo, hsplit, hflat]
    constructor
    · intro hjoined
      obtain rfl : name = flat := hjoined
      exact Or.inr ⟨rfl, hdot⟩
    · rintro (⟨rfl, hnot⟩ | ⟨hname, -⟩)
      · exact absurd ⟨name, rfl, hdot⟩ hnot
      · exact (List.cons.inj hname).2
  · rw [(joinSegments_splitPath_iff path).2 hleads, LeadsTo]
    constructor
    · rintro rfl
      exact Or.inl ⟨rfl, hleads⟩
    · rintro (⟨hflat, -⟩ | ⟨hflat, hdot⟩)
      · exact hflat
      · exact absurd ⟨flat, hflat, hdot⟩ hleads

/-- A name without separators stands alone behind the flat path in front of it. -/
theorem splitPath_append_dot (path : List Char) {name : List Char} (hdot : '.' ∉ name)
    (hplus : '+' ∉ name) :
    splitPath (path ++ '.' :: name) = (replace '+' '.' path, name) := by
  have hname : replace '+' '.' ('.' :: name) = '.' :: name :=
    replace_eq_self (by simp [hplus])
  rw [splitPath, replace_append, hname, cutLast_append_cons hdot]
  rfl

theorem splitSignature_fst_append {dotted : List Char} (h : '(' ∉ dotted)
    {suffix : List Char} (hsuffix : suffix = [] ∨ suffix.head? = some '(') :
    (splitSignature (dotted ++ suffix)).1 = dotted := by
  rcases hsuffix with rfl | hopen
  · rw [List.append_nil, splitSignature_of_not_mem h]
  · obtain ⟨list, rfl⟩ := List.head?_eq_some_iff.1 hopen
    rw [splitSignature, cutFirst_append_cons h]

/-! ## Decoding by letter -/

theorem toList_ofLetter (letter : Char) (path : String) :
    (ofLetter letter path).toList = letter :: ':' :: path.toList := by
  simp [ofLetter]

theorem ofLetter?_eq_type_iff {letter : Char} :
    MemberKind.ofLetter? letter = some .type ↔ letter ∈ ['T', 't'] := by
  unfold MemberKind.ofLetter?
  split <;> simp_all

/-- What is decoded as a type of a flat path is spelled with the letter of types, in either
case, and a path that leads there. -/
theorem kind_and_joined_of_decode {text : String} {id : Identifier}
    (h : decode text = some id) (flat : String) :
    id.kind = .type ∧ id.joined = flat ↔
      ∃ letter ∈ ['T', 't'], ∃ path, text.toList = letter :: ':' :: path ∧
        LeadsTo path flat.toList := by
  obtain ⟨letter, path, kind, htext, hkind, rfl⟩ := decode_eq_some_iff.1 h
  have hletter : kind = .type ↔ letter ∈ ['T', 't'] := by
    rw [← ofLetter?_eq_type_iff, hkind, Option.some.injEq]
  have hofKind : (ofPath kind path).kind = kind := by cases kind <;> rfl
  have hjoined : (ofPath .type path).joined = flat ↔ LeadsTo path flat.toList := by
    rw [← joinSegments_splitPath_eq_iff, ← String.toList_inj, joined, toList_joinPath]
    simp only [ofPath, String.toList_ofList]
  rw [hofKind, htext]
  constructor
  · rintro ⟨rfl, hflat⟩
    exact ⟨letter, hletter.1 rfl, path, rfl, hjoined.1 hflat⟩
  · rintro ⟨given, hgiven, rest, heq, hleads⟩
    obtain ⟨rfl, hbehind⟩ := List.cons.inj heq
    obtain rfl : path = rest := (List.cons.inj hbehind).2
    obtain rfl := hletter.2 hgiven
    exact ⟨rfl, hjoined.2 hleads⟩

/-- The identifier of a type, field or property has the parts of its split path. -/
theorem exists_decode_ofLetter {letter : Char}
    (hletter : letter ∈ ['T', 't', 'F', 'f', 'P', 'p']) (path : String) :
    ∃ id, decode (ofLetter letter path) = some id ∧ id.parameterTypes = none ∧
      id.namespacePath = String.ofList (splitPath path.toList).1 ∧
      id.name = String.ofList (splitPath path.toList).2 := by
  obtain ⟨kind, hkind, hmethod⟩ :
      ∃ kind, MemberKind.ofLetter? letter = some kind ∧ kind ≠ .method := by
    simp only [List.mem_cons, List.not_mem_nil, or_false] at hletter
    rcases hletter with rfl | rfl | rfl | rfl | rfl | rfl <;> exact ⟨_, rfl, by decide⟩
  have hpath := ofPath_of_ne_method hmethod path.toList
  refine ⟨_, decode_eq_some_iff.2
    ⟨letter, path.toList, kind, toList_ofLetter letter path, hkind, hpath⟩, rfl, rfl, rfl⟩

theorem joined_eq_flatName_iff {id : Identifier} {path : String}
    (hpath : id.namespacePath = String.ofList (splitPath path.toList).1)
    (hname : id.name = String.ofList (splitPath path.toList).2) :
    id.joined = flatName path ↔ ¬OnlyDotLeads (flatName path).toList := by
  have hflat : (flatName path).toList = replace '+' '.' path.toList := by
    simp [flatName]
  rw [← String.toList_inj, joined, toList_joinPath, hpath, hname, String.toList_ofList,
    String.toList_ofList, hflat]
  exact joinSegments_splitPath_iff path.toList

/-! ## Names of types -/

theorem ofList_splitPath_snd (type : ModuleType) :
    String.ofList (splitPath type.fullName.toList).2 = type.simpleName := by
  rw [splitPath_snd]
  rfl

/-- A type's own name is the last segment of its doc path too. -/
theorem lastSegment_docPath (type : ModuleType) :
    lastSegment (· == '.') type.docPath.toList = type.simpleName.toList := by
  simp [ModuleType.docPath, flatName, ModuleType.simpleName, lastSegment_replace]

theorem splitPath_below (type : ModuleType) {name : List Char} (hdot : '.' ∉ name)
    (hplus : '+' ∉ name) :
    splitPath (type.fullName.toList ++ '.' :: name) = (type.docPath.toList, name) := by
  rw [splitPath_append_dot _ hdot hplus]
  simp [ModuleType.docPath, flatName]

/-- A constructor of a type takes the name of the type. -/
theorem methodName_constructorMarker {type : ModuleType} (h : type.simpleName ≠ "") :
    methodName type.docPath.toList constructorMarker = type.simpleName.toList := by
  have hnamed : (lastSegment (· == '.') type.docPath.toList).isEmpty = false := by
    rw [lastSegment_docPath, List.isEmpty_eq_false_iff]
    simpa using h
  have hmarked : occurs constructorMarker constructorMarker = true := by decide
  rw [methodName, hnamed, hmarked, ← lastSegment_docPath]
  rfl

theorem decode_constructor {type : ModuleType} (hopen : '(' ∉ type.fullName.toList)
    (hname : type.simpleName ≠ "") {suffix : String}
    (hsuffix : suffix = "" ∨ suffix.toList.head? = some '(') :
    ∃ id, decode (ofLetter 'M' (type.fullName ++ ".#ctor" ++ suffix)) = some id ∧
      id.namespacePath = type.docPath ∧ id.name = type.simpleName := by
  have hpath : (type.fullName ++ ".#ctor" ++ suffix).toList =
      (type.fullName.toList ++ '.' :: constructorMarker) ++ suffix.toList := by
    rw [String.toList_append, String.toList_append]
    rfl
  have hdotted : '(' ∉ type.fullName.toList ++ '.' :: constructorMarker := by
    have hmarker : '(' ∉ '.' :: constructorMarker := by decide
    simp only [List.mem_append, not_or]
    exact ⟨hopen, hmarker⟩
  have hsplit : (splitSignature (type.fullName ++ ".#ctor" ++ suffix).toList).1 =
      type.fullName.toList ++ '.' :: constructorMarker := by
    rw [hpath]
    apply splitSignature_fst_append hdotted
    simpa using hsuffix
  have hparts : splitPath (type.fullName.toList ++ '.' :: constructorMarker) =
      (type.docPath.toList, constructorMarker) :=
    splitPath_below type (by decide) (by decide)
  refine ⟨_, decode_eq_some_iff.2 ⟨'M', _, .method, toList_ofLetter _ _, rfl, rfl⟩, ?_, ?_⟩
  · rw [ofPath_method, hsplit, hparts, String.ofList_toList]
  · rw [ofPath_method, hsplit, hparts]
    simp only [methodName_constructorMarker hname, String.ofList_toList]

/-- A field or property without separators in its name stands below the doc path of its
type. -/
theorem exists_decode_below {letter : Char} (hletter : letter ∈ ['F', 'f', 'P', 'p'])
    (type : ModuleType) {name : String} (hdot : '.' ∉ name.toList)
    (hplus : '+' ∉ name.toList) :
    ∃ id, decode (ofLetter letter (type.fullName ++ "." ++ name)) = some id ∧
      id.namespacePath = type.docPath ∧ id.name = name := by
  have hbelow : (type.fullName ++ "." ++ name).toList =
      type.fullName.toList ++ '.' :: name.toList := by simp
  have hmember : letter ∈ ['T', 't', 'F', 'f', 'P', 'p'] :=
    List.mem_cons_of_mem _ (List.mem_cons_of_mem _ hletter)
  obtain ⟨id, hdecode, -, hpath, hname⟩ :=
    exists_decode_ofLetter hmember (type.fullName ++ "." ++ name)
  rw [hbelow, splitPath_below type hdot hplus, String.ofList_toList] at hpath hname
  exact ⟨id, hdecode, hpath, hname⟩

/-! ## Agreement -/

/-- A path is decoded as any type, field or property, and joins again to the flat path
unless its only dot is in front. So a type is decoded to its own name and doc path, a
member without separators in its name to that name below the doc path of its type, and a
constructor, with a signature or without, to the name of its type below the doc path. -/
theorem decode_agrees_with_names :
    (∀ letter ∈ ['T', 't', 'F', 'f', 'P', 'p'], ∀ path : String,
      ∃ id, decode (ofLetter letter path) = some id ∧ id.parameterTypes = none ∧
        (id.joined = flatName path ↔ ¬OnlyDotLeads (flatName path).toList)) ∧
    ∀ type : ModuleType,
      (¬OnlyDotLeads type.docPath.toList →
        ∃ id, decode (ofLetter 'T' type.fullName) = some id ∧
          id.name = type.simpleName ∧ id.joined = type.docPath) ∧
      (∀ letter ∈ ['F', 'f', 'P', 'p'], ∀ name : String,
        '.' ∉ name.toList → '+' ∉ name.toList →
        ∃ id, decode (ofLetter letter (type.fullName ++ "." ++ name)) = some id ∧
          id.namespacePath = type.docPath ∧ id.name = name) ∧
      ('(' ∉ type.fullName.toList → type.simpleName ≠ "" →
        ∀ suffix : String, suffix = "" ∨ suffix.toList.head? = some '(' →
        ∃ id, decode (ofLetter 'M' (type.fullName ++ ".#ctor" ++ suffix)) = some id ∧
          id.namespacePath = type.docPath ∧ id.name = type.simpleName) := by
  constructor
  · intro letter hletter path
    obtain ⟨id, hdecode, hnone, hpath, hname⟩ := exists_decode_ofLetter hletter path
    exact ⟨id, hdecode, hnone, joined_eq_flatName_iff hpath hname⟩
  · intro type
    refine ⟨?_, ?_, ?_⟩
    · intro hdot
      have hletter : 'T' ∈ ['T', 't', 'F', 'f', 'P', 'p'] := List.mem_cons_self
      obtain ⟨id, hdecode, -, hpath, hname⟩ := exists_decode_ofLetter hletter type.fullName
      have hjoined : id.joined = type.docPath := (joined_eq_flatName_iff hpath hname).2 hdot
      exact ⟨id, hdecode, hname.trans (ofList_splitPath_snd type), hjoined⟩
    · intro letter hletter name hdot hplus
      exact exists_decode_below hletter type hdot hplus
    · intro hopen hname suffix hsuffix
      exact decode_constructor hopen hname hsuffix

/-- A type whose full name starts with a nesting sign and holds the constructor marker. -/
def oddType : ModuleType := ⟨"+Geo.Ring+x#ctor", "", .classType, [], [], []⟩

/-- The premises hold of the odd type, of a member of it and of a constructor with a cut
signature. A path whose only separator leads is not joined again. -/
theorem decode_agrees_with_names_odd :
    (∃ id, decode (ofLetter 'p' "+Ring") = some id ∧ id.parameterTypes = none ∧
      id.joined ≠ flatName "+Ring") ∧
    oddType.docPath = ".Geo.Ring.x#ctor" ∧ oddType.simpleName = "x#ctor" ∧
    (∃ id, decode (ofLetter 'T' oddType.fullName) = some id ∧
      id.name = oddType.simpleName ∧ id.joined = oddType.docPath) ∧
    (∃ id, decode (ofLetter 'P' (oddType.fullName ++ "." ++ "(y")) = some id ∧
      id.namespacePath = oddType.docPath ∧ id.name = "(y") ∧
    (∃ id, decode (ofLetter 'M' (oddType.fullName ++ ".#ctor" ++ "(A.B")) = some id ∧
      id.namespacePath = oddType.docPath ∧ id.name = oddType.simpleName) := by
  have hlone : OnlyDotLeads (flatName "+Ring").toList := ⟨"Ring".toList, by decide, by decide⟩
  have hpath : oddType.docPath = ".Geo.Ring.x#ctor" := by decide
  have hname : oddType.simpleName = "x#ctor" := by decide
  have hdot : ¬OnlyDotLeads oddType.docPath.toList := by
    rw [hpath]
    rintro ⟨name, hrest, hfree⟩
    obtain rfl : "Geo.Ring.x#ctor".toList = name := (List.cons.inj hrest).2
    revert hfree
    decide
  obtain ⟨hpaths, hnames⟩ := decode_agrees_with_names
  obtain ⟨id, hdecode, hnone, hjoined⟩ := hpaths 'p' (by decide) "+Ring"
  obtain ⟨htype, hmember, hconstructor⟩ := hnames oddType
  have hlost : id.joined ≠ flatName "+Ring" := fun h ↦ hjoined.1 h hlone
  have hctor := hconstructor (by decide) (by rw [hname]; decide) "(A.B" (Or.inr (by decide))
  exact ⟨⟨id, hdecode, hnone, hlost⟩, hpath, hname, htype hdot,
    hmember 'P' (by decide) "(y" (by decide) (by decide), hctor⟩

end DocSheet.Identifier
