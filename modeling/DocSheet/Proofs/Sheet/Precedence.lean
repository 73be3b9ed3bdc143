import DocSheet.Proofs.Sheet.Likeness

/-!
# Own comments before inherited ones

A member is described by the first record of its name that its type owns, in the order of
the file. Only a type that owns none looks to its ancestors, and there the first one with
such a record decides, in the order of the module. The search itself knows no such levels:
it goes through one list, where a record stands once for each owner.

So the bases of a type say which types are its ancestors, and nothing about their order. A
base that is named twice, or a record with several owners, is found where it is found first.
-/

namespace DocSheet

/-! ## First items -/

/-- Whether an item is the first of a list with a property. -/
def IsFirst {α : Type} (p : α → Prop) (item : α) (list : List α) : Prop :=
  ∃ before after, list = before ++ item :: after ∧ p item ∧ ∀ earlier ∈ before, ¬p earlier

theorem find?_eq_some_iff_isFirst {α : Type} {p : α → Bool} {q : α → Prop}
    (hp : ∀ item, p item = true ↔ q item) {item : α} {list : List α} :
    list.find? p = some item ↔ IsFirst q item list := by
  simp only [List.find?_eq_some_iff_append, IsFirst, Bool.not_eq_true', ← Bool.not_eq_true, hp]
  constructor
  · rintro ⟨hitem, before, after, hlist, hbefore⟩
    exact ⟨before, after, hlist, hitem, hbefore⟩
  · rintro ⟨before, after, hlist, hitem, hbefore⟩
    exact ⟨hitem, before, after, hlist, hbefore⟩

/-- A search finds the same without the repetitions of a list. -/
theorem find?_eraseDups (p : Record → Bool) (records : List Record) :
    records.eraseDups.find? p = records.find? p := by
  -- By the length: what `eraseDups` goes on with is filtered, and no tail of the records.
  match records with
  | [] => rfl
  | record :: rest =>
    rw [List.eraseDups_cons]
    by_cases hrecord : p record = true
    · rw [List.find?_cons_of_pos hrecord, List.find?_cons_of_pos hrecord]
    · have hother (other : Record) (hother : p other = true) : (!other == record) = true := by
        rw [Bool.not_eq_true', beq_eq_false_iff_ne]
        rintro rfl
        exact hrecord hother
      rw [List.find?_cons_of_neg hrecord, List.find?_cons_of_neg hrecord, find?_eraseDups p,
        ModuleType.find?_filter_of_imp hother]
termination_by records.length
decreasing_by exact Nat.lt_succ_of_le (List.length_filter_le _ rest)

/-! ## Levels of comments -/

namespace ModuleType

/-- Whether a type owns a record of a name. -/
def Mentions (type : ModuleType) (name : String) (records : List Record) : Prop :=
  ∃ record ∈ type.ownRecords records, record.name = name

instance (type : ModuleType) (name : String) (records : List Record) :
    Decidable (type.Mentions name records) :=
  inferInstanceAs (Decidable (∃ record ∈ type.ownRecords records, record.name = name))

/-- Whether a description is the one that the comments on a type and its ancestors give a
name, those on the type before all others. -/
structure Explains (type : ModuleType) (types : List ModuleType) (records : List Record)
    (name : String) (description : Option String) : Prop where
  own : ∀ record, IsFirst (·.name = name) record (type.ownRecords records) →
    description = some record.description
  inherited : ¬type.Mentions name records → ∀ ancestor record,
    IsFirst (fun owner ↦ type.descendsFrom owner = true ∧ owner.Mentions name records)
      ancestor types →
    IsFirst (·.name = name) record (ancestor.ownRecords records) →
    description = some record.description
  absent : ¬type.Mentions name records →
    (∀ ancestor ∈ types, type.descendsFrom ancestor = true → ¬ancestor.Mentions name records) →
    description = none

variable {type : ModuleType} {types : List ModuleType} {records : List Record} {name : String}

theorem find?_ownRecords_eq_none (h : ¬type.Mentions name records) :
    (type.ownRecords records).find? (·.name == name) = none := by
  rw [List.find?_eq_none]
  exact fun record hmem hname ↦ h ⟨record, hmem, beq_iff_eq.1 hname⟩

/-- The first record in the one list of all owners: an own one, or one of the first ancestor
that owns any. -/
theorem find?_inheritedRecords_eq (type : ModuleType) (types : List ModuleType)
    (records : List Record) (name : String) :
    (type.inheritedRecords types records).find? (·.name == name) =
      ((type.ownRecords records).find? (·.name == name)).or
        ((types.filter type.descendsFrom).findSome? fun ancestor ↦
          (ancestor.ownRecords records).find? (·.name == name)) := by
  rw [inheritedRecords_eq_append, List.find?_append, List.find?_flatMap]

theorem findSome?_ancestors_of_isFirst {ancestor : ModuleType} {record : Record}
    (hancestor : IsFirst
      (fun owner ↦ type.descendsFrom owner = true ∧ owner.Mentions name records) ancestor types)
    (hrecord : (ancestor.ownRecords records).find? (·.name == name) = some record) :
    (types.filter type.descendsFrom).findSome?
      (fun ancestor ↦ (ancestor.ownRecords records).find? (·.name == name)) = some record := by
  obtain ⟨above, below, rfl, ⟨hdescends, -⟩, habove⟩ := hancestor
  rw [List.findSome?_eq_some_iff]
  refine ⟨above.filter type.descendsFrom, ancestor, below.filter type.descendsFrom, ?_, hrecord,
    fun nearer hnearer ↦ ?_⟩
  · rw [List.filter_append, List.filter_cons_of_pos hdescends]
  · obtain ⟨hmem, hdescends⟩ := List.mem_filter.1 hnearer
    exact find?_ownRecords_eq_none fun hmentions ↦ habove nearer hmem ⟨hdescends, hmentions⟩

theorem explains_description? (type : ModuleType) (types : List ModuleType)
    (records : List Record) (name : String) :
    type.Explains types records name
      (Assembly.description? name (type.inheritedRecords types records)) := by
  have hname (record : Record) : (record.name == name) = true ↔ record.name = name := beq_iff_eq
  unfold Assembly.description?
  rw [find?_inheritedRecords_eq]
  refine ⟨fun record hfirst ↦ ?_, fun hown ancestor record hancestor hfirst ↦ ?_,
    fun hown habsent ↦ ?_⟩
  · rw [(find?_eq_some_iff_isFirst hname).2 hfirst]
    rfl
  · have hrecord := (find?_eq_some_iff_isFirst hname).2 hfirst
    rw [find?_ownRecords_eq_none hown, Option.none_or,
      findSome?_ancestors_of_isFirst hancestor hrecord, Option.map_some]
  · have hnone : (types.filter type.descendsFrom).findSome?
        (fun ancestor ↦ (ancestor.ownRecords records).find? (·.name == name)) = none := by
      rw [List.findSome?_eq_none_iff]
      intro ancestor hancestor
      obtain ⟨hmem, hdescends⟩ := List.mem_filter.1 hancestor
      exact find?_ownRecords_eq_none (habsent ancestor hmem hdescends)
    rw [find?_ownRecords_eq_none hown, hnone]
    rfl

/-- Whether two types differ in nothing but the order and the repetition of their bases. -/
structure SameButBases (type other : ModuleType) : Prop extends type.Alike other where
  members : type.members = other.members

theorem SameButBases.refl (type : ModuleType) : type.SameButBases type :=
  ⟨.refl type, rfl⟩

end ModuleType

namespace Assembly

/-- A type with a documented member has a sheet, with a row for the member. -/
theorem exists_row_of_documented {assembly : Assembly} {type : ModuleType} {position : Nat}
    {member : Member} (h : (assembly.documentedMembers type)[position]? = some member) :
    ∃ sheet, assembly.sheet? type = some sheet ∧
      sheet.table[position]? = some (row (assembly.recordsFor type) member) := by
  have hmem : member ∈ type.allMembers := (List.mem_filter.1 (List.mem_of_getElem? h)).1
  obtain ⟨sheet, hsheet, htable⟩ :=
    sheet?_of_isBlank_eq_false (isBlank_eq_false_of_ne_nil (List.ne_nil_of_mem hmem))
  exact ⟨sheet, hsheet, by rw [htable, List.getElem?_map, h, Option.map_some]⟩

theorem sheets_eq_of_bases {one other : Assembly} (hrecords : one.records = other.records)
    (hfilter : one.filter = other.filter)
    (htypes : List.Forall₂ ModuleType.SameButBases one.manifest.types other.manifest.types) :
    (∀ type again : ModuleType, type.SameButBases again →
      one.sheet? type = other.sheet? again) ∧ one.sheets = other.sheets := by
  have halike : one.Alike other :=
    ⟨htypes.imp fun _ _ h ↦ h.toAlike, hrecords, hfilter⟩
  have hsheet (type again : ModuleType) (h : type.SameButBases again) :
      one.sheet? type = other.sheet? again := halike.sheet?_eq h.toAlike h.members
  exact ⟨hsheet, sheets_eq_of_forall₂ hfilter
    (htypes.imp fun type again h ↦ ⟨h.toAlike, hsheet type again h⟩)⟩

/-- Each documented member of a type has a row in its sheet, with the description that the
type's own comments give it before any inherited ones. Records that several types own could
as well be listed once, and the order and the repetition of the bases show in no sheet. -/
theorem own_comments_precede_inherited (assembly : Assembly) (type : ModuleType) :
    (∀ (types : List ModuleType) (records : List Record) (name : String),
      type.Explains types records name
        (description? name (type.inheritedRecords types records)) ∧
      description? name (type.inheritedRecords types records).eraseDups =
        description? name (type.inheritedRecords types records)) ∧
    (∀ (position : Nat) (member : Member),
      (assembly.documentedMembers type)[position]? = some member →
      ∃ sheet row, assembly.sheet? type = some sheet ∧ sheet.table[position]? = some row ∧
        row.name = member.name ∧ type.Explains assembly.qualifying assembly.records member.name
          row.description) ∧
    ∀ (other : Assembly) (again : ModuleType), assembly.records = other.records →
      assembly.filter = other.filter →
      List.Forall₂ ModuleType.SameButBases assembly.manifest.types other.manifest.types →
      type.SameButBases again →
        assembly.sheet? type = other.sheet? again ∧ assembly.sheets = other.sheets := by
  refine ⟨fun types records name ↦ ⟨type.explains_description? types records name, ?_⟩, ?_, ?_⟩
  · rw [description?, description?, find?_eraseDups]
  · intro position member hmember
    obtain ⟨sheet, hsheet, hrow⟩ := exists_row_of_documented hmember
    exact ⟨sheet, _, hsheet, hrow, rfl,
      type.explains_description? assembly.qualifying assembly.records member.name⟩
  · intro other again hrecords hfilter htypes hagain
    obtain ⟨hsheet, hsheets⟩ := sheets_eq_of_bases hrecords hfilter htypes
    exact ⟨hsheet type again hagain, hsheets⟩

/-- An ancestor, and another one whose name starts with that of the first. -/
def elder : ModuleType := ⟨"G.A", "G", .classType, [], [], []⟩

def namePrefixed : ModuleType := ⟨"G.AB", "G", .classType, [], [], []⟩

def textMember (name : String) : Member := ⟨name, .field, .text, none, none⟩

def heir : ModuleType :=
  ⟨"G.D", "G", .classType, ["G.AB", "G.A"],
    [textMember "x", textMember "y", textMember "z"], []⟩

/-- The bases in another order, one of them twice. -/
def reorderedHeir : ModuleType := { heir with bases := ["G.A", "G.AB", "G.A"] }

def ownComment : Record := ⟨"x", "G.D", "own", .field, []⟩

/-- A comment that both ancestors own. -/
def sharedComment : Record := ⟨"y", "G.AB", "shared", .field, []⟩

def heritage : Assembly :=
  ⟨⟨[heir, elder, namePrefixed]⟩,
    [⟨"x", "G.A", "inherited", .field, []⟩, sharedComment, ⟨"y", "G.A", "later", .field, []⟩,
      ownComment], ⟨[]⟩⟩

def reorderedHeritage : Assembly :=
  ⟨⟨[reorderedHeir, elder, namePrefixed]⟩, heritage.records, heritage.filter⟩

/-- The premises hold of a type with an own comment on one member, behind that on an
ancestor, and with a comment on another member that two ancestors own. -/
theorem own_comments_precede_inherited_heir :
    IsFirst (·.name = "x") ownComment (heir.ownRecords heritage.records) ∧
      ¬heir.Mentions "y" heritage.records ∧
      IsFirst (fun owner ↦ heir.descendsFrom owner = true ∧
        owner.Mentions "y" heritage.records) elder heritage.qualifying ∧
      IsFirst (·.name = "y") sharedComment (elder.ownRecords heritage.records) ∧
      List.Forall₂ ModuleType.SameButBases heritage.manifest.types
        reorderedHeritage.manifest.types ∧
      (∃ sheet row, heritage.sheet? heir = some sheet ∧ sheet.table[0]? = some row ∧
        row.description = some "own") ∧
      (∃ sheet row, heritage.sheet? heir = some sheet ∧ sheet.table[1]? = some row ∧
        row.description = some "shared") ∧
      (∃ sheet row, heritage.sheet? heir = some sheet ∧ sheet.table[2]? = some row ∧
        row.description = none) ∧
      heritage.sheets = reorderedHeritage.sheets := by
  have hname (name : String) (record : Record) :
      (record.name == name) = true ↔ record.name = name := beq_iff_eq
  have hown : IsFirst (·.name = "x") ownComment (heir.ownRecords heritage.records) :=
    (find?_eq_some_iff_isFirst (hname "x")).1 (by decide +kernel)
  have hmute : ¬heir.Mentions "y" heritage.records := by decide +kernel
  have hqualifying : heritage.qualifying = [heir, elder, namePrefixed] := by decide +kernel
  have helder : IsFirst (fun owner ↦ heir.descendsFrom owner = true ∧
      owner.Mentions "y" heritage.records) elder heritage.qualifying :=
    ⟨[heir], [namePrefixed], hqualifying, by decide +kernel, by decide +kernel⟩
  have hshared : IsFirst (·.name = "y") sharedComment (elder.ownRecords heritage.records) :=
    (find?_eq_some_iff_isFirst (hname "y")).1 (by decide +kernel)
  have hheir : heir.SameButBases reorderedHeir :=
    { fullName := rfl, namespaceName := rfl, kind := rfl, enumValues := rfl, members := rfl
      bases := fun base ↦ by simp [heir, reorderedHeir, or_comm] }
  have htypes : List.Forall₂ ModuleType.SameButBases heritage.manifest.types
      reorderedHeritage.manifest.types :=
    .cons hheir (.cons (.refl elder) (.cons (.refl namePrefixed) .nil))
  obtain ⟨-, hrows, hbases⟩ := own_comments_precede_inherited heritage heir
  obtain ⟨_, first, hsheet, hfirst, -, hexplained⟩ :=
    hrows 0 (textMember "x") (by decide +kernel)
  obtain ⟨_, second, hagain, hsecond, -, hinherited⟩ :=
    hrows 1 (textMember "y") (by decide +kernel)
  obtain ⟨_, third, hlast, hthird, -, habsent⟩ :=
    hrows 2 (textMember "z") (by decide +kernel)
  refine ⟨hown, hmute, helder, hshared, htypes,
    ⟨_, first, hsheet, hfirst, hexplained.own ownComment hown⟩,
    ⟨_, second, hagain, hsecond, hinherited.inherited hmute elder sharedComment helder hshared⟩,
    ⟨_, third, hlast, hthird, habsent.absent (by decide +kernel) (by decide +kernel)⟩,
    (hbases reorderedHeritage reorderedHeir rfl rfl htypes hheir).2⟩

end Assembly

end DocSheet
