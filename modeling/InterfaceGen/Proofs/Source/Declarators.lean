import InterfaceGen.Proofs.Source.FieldExtraction
import InterfaceGen.Proofs.Source.FieldNames

/-!
# Initial values between the names of fields

A declaration of several fields of one type, in which each name may have an initial value. The names
are read up to the first one with a value; what stands behind that, through the semicolon, counts as
its value. So the fields of a class are those of the class without values where only the last name
of a declaration has one, and those behind other values are lost, `FieldList.ofText_valued`.
-/

namespace InterfaceGen.Source

open InterfaceGen.Text InterfaceGen.Text.Pattern InterfaceGen.Types

/-- The name of a field with the blanks around it, and perhaps the text of a value behind it. -/
structure Declarator where
  before : List Char
  name : FieldName
  behind : List Char
  value : Option (List Char)
  blankBefore : AreBlank before
  blankBehind : AreBlank behind
  plain : ∀ text ∈ value, ';' ∉ text ∧ '@' ∉ text

namespace Declarator

/-- How the value is written. -/
def valueText (d : Declarator) : List Char :=
  match d.value with
  | none => []
  | some text => '=' :: text

/-- How the declarator is written. -/
def written (d : Declarator) : List Char :=
  d.before ++ (d.name.chars ++ (d.behind ++ d.valueText))

/-- The declarator without its value. -/
def bare (d : Declarator) : Declarator :=
  { d with
    value := none
    plain := fun _ h => nomatch h }

/-- Further declarators, each behind a comma. -/
def writtenAll (ds : List Declarator) : List Char :=
  ds.flatMap fun d => ',' :: d.written

/-- The names that are read behind a declarator: none if it has a value. -/
def readBehind : Declarator → List Declarator → List FieldName
  | _, [] => []
  | d, e :: ds => if d.value.isSome then [] else e.name :: readBehind e ds

/-- The names that are not read: those behind the first value. -/
def hiddenBehind : Declarator → List Declarator → List FieldName
  | _, [] => []
  | d, e :: ds => if d.value.isSome then e.name :: ds.map (·.name) else hiddenBehind e ds

/-- Every name is read or hidden, up to their order. -/
theorem readBehind_append_hiddenBehind (d : Declarator) (ds : List Declarator) :
    readBehind d ds ++ hiddenBehind d ds = ds.map (·.name) := by
  induction ds generalizing d with
  | nil => rfl
  | cons e ds ih =>
    rw [readBehind, hiddenBehind]
    split
    · rfl
    · rw [List.cons_append, ih, List.map_cons]

/-- Nothing is hidden where at most the last declarator has a value. -/
theorem hiddenBehind_eq_nil {d : Declarator} {ds : List Declarator} :
    hiddenBehind d ds = [] ↔ ∀ e ∈ (d :: ds).dropLast, e.value = none := by
  induction ds generalizing d with
  | nil => simp [hiddenBehind]
  | cons e ds ih =>
    rw [hiddenBehind, List.dropLast_cons_cons, List.forall_mem_cons, ← ih]
    cases d.value <;> simp

/-- Without values every name is read. -/
theorem readBehind_bare (d : Declarator) (ds : List Declarator) :
    readBehind d.bare (ds.map bare) = ds.map (·.name) := by
  induction ds generalizing d with
  | nil => rfl
  | cons e ds ih =>
    rw [List.map_cons, readBehind, ih, List.map_cons]
    rfl

/-! ## What is written -/

theorem notMem_written (d : Declarator) {c : Char} (h : c = ';' ∨ c = '@') : c ∉ d.written := by
  have solid : isBlank c = false ∧ isNameChar c = false ∧ c ≠ '=' := by
    rcases h with rfl | rfl <;> decide
  obtain ⟨blank, name, sign⟩ := solid
  have named : c ∉ d.name.chars := notMem_of_forall (isNameChar_of_mem d.name) name
  have valued : c ∉ d.valueText := by
    rw [valueText]
    cases same : d.value with
    | none => exact List.not_mem_nil
    | some text =>
      obtain ⟨closed, plain⟩ := d.plain text same
      rcases h with rfl | rfl <;> simp [sign, closed, plain]
  simp only [written, List.mem_append, notMem_of_forall d.blankBefore blank, named,
    notMem_of_forall d.blankBehind blank, valued, or_self, not_false_eq_true]

/-- No declarator has a semicolon or the mark of annotations. -/
theorem notMem_writtenAll (ds : List Declarator) {c : Char} (h : c = ';' ∨ c = '@') :
    c ∉ writtenAll ds := by
  have comma : c ≠ ',' := by
    rcases h with rfl | rfl <;> decide
  simp only [writtenAll, List.mem_flatMap, List.mem_cons, not_exists, not_and, not_or]
  exact fun d _ => ⟨comma, d.notMem_written h⟩

/-- What stands behind a name: the names that are read, and perhaps a value. -/
def Splits (d : Declarator) (ds : List Declarator) : Prop :=
  ∃ names tail value, d.behind ++ (d.valueText ++ writtenAll ds) = names ++ (tail ++ value) ∧
    FurtherNames (readBehind d ds) names ∧ AreBlank tail ∧ Initializer value

/-- A value takes in all that stands behind it. -/
theorem splits_of_value {d : Declarator} {text : List Char} (same : d.value = some text)
    {ds : List Declarator} (unread : readBehind d ds = []) : Splits d ds := by
  obtain ⟨closed, plain⟩ := d.plain text same
  refine ⟨[], d.behind, '=' :: (text ++ writtenAll ds), ?_, ?_, d.blankBehind, .value ?_ ?_⟩
  · rw [valueText, same]
    rfl
  · rw [unread]
    exact .nil
  · exact List.not_mem_append closed (notMem_writtenAll ds (.inl rfl))
  · exact List.not_mem_append plain (notMem_writtenAll ds (.inr rfl))

/-- The declarators are written as the names that are read, and the value that hides the others. -/
theorem splits (d : Declarator) (ds : List Declarator) : Splits d ds := by
  induction ds generalizing d with
  | nil =>
    cases same : d.value with
    | some text => exact splits_of_value same rfl
    | none =>
      refine ⟨[], d.behind, [], ?_, .nil, d.blankBehind, .none⟩
      rw [valueText, same]
      rfl
  | cons e ds ih =>
    cases same : d.value with
    | some text => exact splits_of_value same (by rw [readBehind, same]; rfl)
    | none =>
      obtain ⟨names, tail, value, split, further, blank, hv⟩ := ih e
      refine ⟨d.behind ++ ',' :: (e.before ++ (e.name.chars ++ names)), tail, value, ?_, ?_, blank,
        hv⟩
      · have all : writtenAll (e :: ds) = ',' :: (e.written ++ writtenAll ds) := rfl
        have unvalued : d.valueText = [] := by rw [valueText, same]
        simp only [unvalued, all, written, List.nil_append, List.append_assoc,
          List.cons_append, split]
      · rw [readBehind, same, if_neg (by simp)]
        exact .cons d.blankBehind e.blankBefore further

end Declarator

/-! ## Classes -/

/-- What stands before the names of a declaration of this type. -/
inductive GroupFront (type : JavaType) : List Char → Prop where
  | intro {gap modifiers text space : List Char} (hg : AreBlank gap) (apart : gap ≠ [])
    (hm : Modifiers modifiers) (ht : Spaced AreBlank type.tokens text)
    (word : text.takeWhile isWordChar ∉ modifierWords) (hs : AreBlank space) (apart' : space ≠ []) :
    GroupFront type (privateWord ++ (gap ++ (modifiers ++ (text ++ space))))

/-- A declaration of private fields of one type, behind blanks. -/
structure FieldGroup where
  before : List Char
  front : List Char
  type : JavaType
  first : Declarator
  others : List Declarator
  blank : AreBlank before
  fronted : GroupFront type front

namespace FieldGroup

/-- How the declaration is written. -/
def written (g : FieldGroup) : List Char :=
  g.before ++ (g.front ++ (g.first.written ++ (Declarator.writtenAll g.others ++ [';'])))

/-- The declaration without values. -/
def bare (g : FieldGroup) : FieldGroup :=
  { g with
    first := g.first.bare
    others := g.others.map Declarator.bare }

/-- The declaration of some of its names. -/
def declaring (g : FieldGroup) (others : List FieldName) : FieldDeclaration :=
  ⟨none, g.type, g.first.name, others⟩

/-- The declaration as it is read. -/
def read (g : FieldGroup) : FieldDeclaration :=
  g.declaring (Declarator.readBehind g.first g.others)

/-- The declaration as it is meant. -/
def meant (g : FieldGroup) : FieldDeclaration :=
  g.declaring (g.others.map (·.name))

/-- The names that are not read. -/
def hidden (g : FieldGroup) : List FieldName :=
  Declarator.hiddenBehind g.first g.others

/-- The field of this name. -/
def field (types : TypeSystem) (g : FieldGroup) (n : FieldName) : Field where
  externalName := n.toString
  mappedType := types.mapType g.type.toString
  isOptional := true
  declaredType := g.type.toString
  sourceName := n.toString

/-- The fields that are meant are those that are read, and the hidden ones. -/
theorem fields_meant (types : TypeSystem) (g : FieldGroup) :
    g.meant.fields types = g.read.fields types ++ g.hidden.map (g.field types) := by
  have all := Declarator.readBehind_append_hiddenBehind g.first g.others
  show (g.first.name :: g.others.map (·.name)).map (g.field types) = _
  rw [← all, List.map_cons, List.map_append, ← List.cons_append, ← List.map_cons]
  rfl

/-- Without values the declaration is read as it is meant. -/
theorem read_bare (g : FieldGroup) : g.bare.read = g.meant := by
  rw [read, bare, declaring]
  dsimp only
  rw [Declarator.readBehind_bare]
  rfl

/-- A declaration is written as a core that the field pattern reads, with blanks before it. -/
theorem exists_core (g : FieldGroup) :
    ∃ core, g.written = g.before ++ core ∧ g.read.Written core := by
  obtain ⟨names, tail, value, split, further, blank, hv⟩ := g.first.splits g.others
  have fronted := g.fronted
  generalize same : g.front = front at fronted
  cases fronted with
  | @intro gap modifiers text space hg apart hm ht word hs apart' =>
    have spaced : AreBlank (space ++ g.first.before) :=
      List.forall_mem_append.2 ⟨hs, g.first.blankBefore⟩
    have some : space ++ g.first.before ≠ [] := List.append_ne_nil_of_left_ne_nil apart' _
    have core : Core g.type g.first.name (Declarator.readBehind g.first g.others) _ :=
      .intro hg apart hm ht word spaced some further blank hv
    refine ⟨_, ?_, .plain .nil core⟩
    have behind := congrArg (· ++ [';']) split
    simp only [List.append_assoc] at behind
    simp only [written, same, Declarator.written, List.append_assoc, List.nil_append, behind]

end FieldGroup

/-- What stands before the members of a class. -/
inductive ClassFront : List Char → Prop where
  | intro {gap behind : List Char} {n : Identifier} (hg : AreBlank gap) (apart : gap ≠ [])
    (notPrivate : n.chars ≠ privateWord) (hb : AreBlank behind) :
    ClassFront ("class".toList ++ (gap ++ (n.chars ++ (behind ++ ['\x7b']))))

/-- A class with declarations of private fields and nothing else in it. -/
structure FieldClass where
  front : List Char
  groups : List FieldGroup
  last : List Char
  fronted : ClassFront front
  blank : AreBlank last

namespace FieldClass

/-- How the class is written. -/
def written (c : FieldClass) : String :=
  String.ofList (c.front ++ (c.groups.flatMap FieldGroup.written ++ (c.last ++ ['\x7d'])))

/-- The class without values. -/
def bare (c : FieldClass) : FieldClass :=
  { c with groups := c.groups.map FieldGroup.bare }

/-- The declarations are members of a class, as they are read. -/
theorem members {groups : List FieldGroup} {last : List Char} (blank : AreBlank last) :
    Members (groups.map FieldGroup.read) (groups.flatMap FieldGroup.written ++ last) := by
  induction groups with
  | nil => exact .nil blank
  | cons g groups ih =>
    obtain ⟨core, same, written⟩ := g.exists_core
    rw [List.flatMap_cons, same, List.append_assoc, List.append_assoc]
    exact .cons g.blank written ih

/-- The class is the text of a class with the declarations as they are read. -/
theorem classText (c : FieldClass) :
    ClassText (c.groups.map FieldGroup.read) c.written.toList := by
  rw [written, String.toList_ofList]
  have fronted := c.fronted
  generalize same : c.front = front at fronted
  cases fronted with
  | intro hg apart notPrivate hb =>
    have whole := ClassText.intro hg apart notPrivate hb (@members c.groups c.last c.blank)
    simpa using whole

end FieldClass

namespace FieldList

/-- Of a class text without names of properties, the first field of each name is returned. -/
theorem ofText_unnamed {ds : List FieldDeclaration} {text : String} (types : TypeSystem)
    (h : ClassText ds text.toList) (unnamed : ∀ d ∈ ds, d.literal = none) :
    ofText text types =
      ((ds.flatMap (·.fields types)).filter isUnmarked).eraseDupsBy isSameName := by
  have none : ds.filter (·.isAnnotated) = [] :=
    List.filter_eq_nil_iff.2 fun d hd => by simp [FieldDeclaration.isAnnotated, unnamed d hd]
  have first := h.filterMap_annotated types (by simp [none])
  have own : ∀ d ∈ ds, d.unnamed = d := fun d hd => by
    rw [FieldDeclaration.unnamed, ← unnamed d hd]
  have second := h.filterMap_plain types
  rw [List.flatMap_congr fun d hd => congrArg (FieldDeclaration.fields types) (own d hd)] at second
  rw [none, List.flatMap_nil] at first
  rw [ofText, List.filterMap_append, first, second, List.nil_append]
  refine foldl_addDistinct_taken fun f hf => ?_
  obtain ⟨d, hd, hf⟩ := List.mem_flatMap.1 (List.mem_of_mem_filter hf)
  obtain ⟨n, -, rfl⟩ := List.mem_map.1 hf
  rw [unnamed d hd]

end FieldList

namespace FieldClass

/-- The fields of the class as it is read. -/
def readFields (types : TypeSystem) (c : FieldClass) : List Field :=
  (c.groups.flatMap fun g => g.read.fields types).filter isUnmarked

/-- The fields of the class as it is meant. -/
def meantFields (types : TypeSystem) (c : FieldClass) : List Field :=
  (c.groups.flatMap fun g => g.meant.fields types).filter isUnmarked

variable (types : TypeSystem) (c : FieldClass)

/-- The fields of the class are those of the names that are read, each name once. -/
theorem ofText_written :
    FieldList.ofText c.written types = (c.readFields types).eraseDupsBy FieldList.isSameName := by
  have unnamed : ∀ d ∈ c.groups.map FieldGroup.read, d.literal = none := by
    intro d hd
    obtain ⟨g, -, rfl⟩ := List.mem_map.1 hd
    rfl
  rw [FieldList.ofText_unnamed types c.classText unnamed, List.flatMap_map]
  rfl

/-- Without values the fields that are read are those that are meant. -/
theorem readFields_bare : c.bare.readFields types = c.meantFields types := by
  rw [readFields, bare, List.flatMap_map]
  simp only [FieldGroup.read_bare]
  rfl

/-- The names of all declarations. -/
def names (c : FieldClass) : List FieldName :=
  c.groups.flatMap (·.meant.names)

/-- The fields that are meant have names of the class, in their order. -/
theorem map_sourceName_meantFields :
    ((c.meantFields types).map (·.sourceName)).Sublist (c.names.map (·.toString)) := by
  have all := map_sourceName (c.groups.map FieldGroup.meant) types
  rw [List.flatMap_map, List.flatMap_map] at all
  rw [names, ← all]
  exact List.filter_sublist.map _

theorem length_flatMap_append {α β : Type} (f h : α → List β) (xs : List α) :
    (xs.flatMap fun x => f x ++ h x).length = (xs.flatMap f).length + (xs.flatMap h).length := by
  induction xs with
  | nil => rfl
  | cons x xs ih =>
    simp only [List.flatMap_cons, List.length_append, ih]
    omega

/-- Nothing is added to any part of a list exactly if nothing is added to the whole. -/
theorem flatMap_append_eq_iff {α β : Type} {f h : α → List β} {xs : List α} :
    (xs.flatMap f = xs.flatMap fun x => f x ++ h x) ↔ ∀ x ∈ xs, h x = [] := by
  constructor
  · intro same
    have long := congrArg List.length same
    rw [length_flatMap_append, Nat.left_eq_add, List.length_eq_zero_iff] at long
    exact List.flatMap_eq_nil_iff.1 long
  · intro none
    exact List.flatMap_congr fun x hx => by rw [none x hx, List.append_nil]

/-- The class is read as it is meant where only names that mark the version are hidden. -/
theorem readFields_eq_meantFields :
    c.readFields types = c.meantFields types ↔
      ∀ g ∈ c.groups, ∀ n ∈ g.hidden, n.toString = FieldList.versionMarker := by
  rw [readFields, meantFields, List.filter_flatMap, List.filter_flatMap]
  simp only [FieldGroup.fields_meant, List.filter_append]
  rw [flatMap_append_eq_iff]
  refine forall₂_congr fun g _ => ?_
  simp [isUnmarked, FieldGroup.field]

end FieldClass

/-- Of each class the fields up to the first value of each declaration are returned, the first of
each name. So the values decide nothing where only last names have one; and where all names are
different, they decide nothing exactly if no other name than the version marker stands behind a
value. -/
theorem FieldList.ofText_valued (types : TypeSystem) (c : FieldClass) :
    ofText c.written types = (c.readFields types).eraseDupsBy isSameName ∧
      ofText c.bare.written types = (c.meantFields types).eraseDupsBy isSameName ∧
      ((∀ g ∈ c.groups, ∀ d ∈ (g.first :: g.others).dropLast, d.value = none) →
        ofText c.written types = ofText c.bare.written types) ∧
      ((c.names.map (·.toString)).Nodup →
        (ofText c.written types = ofText c.bare.written types ↔
          ∀ g ∈ c.groups, ∀ n ∈ g.hidden, n.toString = versionMarker)) := by
  have read := c.ofText_written types
  have meant : ofText c.bare.written types = (c.meantFields types).eraseDupsBy isSameName := by
    rw [c.bare.ofText_written types, c.readFields_bare types]
  refine ⟨read, meant, fun onlyLast => ?_, fun distinct => ?_⟩
  · have same : c.readFields types = c.meantFields types := by
      refine (c.readFields_eq_meantFields types).2 fun g hg n hn => ?_
      rw [FieldGroup.hidden, Declarator.hiddenBehind_eq_nil.2 (onlyLast g hg)] at hn
      cases hn
    rw [read, meant, same]
  · have nodup := (c.map_sourceName_meantFields types).nodup distinct
    have once : ∀ {fields : List Field}, (fields.map (·.sourceName)).Nodup →
        fields.eraseDupsBy isSameName = fields := fun h =>
      eraseDupsBy_eq_self ((List.pairwise_map.1 h).imp fun differ => beq_false_of_ne differ)
    have part : (c.readFields types).Sublist (c.meantFields types) :=
      (List.Sublist.flatMap_right _ fun g _ => by
        rw [g.fields_meant]
        exact List.sublist_append_left _ _).filter _
    rw [read, meant, once nodup, once ((part.map _).nodup nodup), c.readFields_eq_meantFields types]

theorem isIdentifier_int : isHeadedBy isNameStart isNameChar "int".toList = true := by
  decide

/-- The type `int`. -/
def int : JavaType :=
  .name ⟨_, isIdentifier_int⟩

/-- The name `x` with a value, and `y` behind it. -/
def pointGroup : FieldGroup where
  before := [' ']
  front := "private int ".toList
  type := int
  first := ⟨[], ⟨['x'], by decide⟩, [' '], some " 1".toList, List.forall_mem_nil _,
    List.forall_mem_singleton.2 (by decide), by decide⟩
  others := [⟨[' '], ⟨['y'], by decide⟩, [], none, List.forall_mem_singleton.2 (by decide),
    List.forall_mem_nil _, by decide⟩]
  blank := List.forall_mem_singleton.2 (by decide)
  fronted := by
    have space : AreBlank [' '] := List.forall_mem_singleton.2 (by decide)
    have spelled : Spaced AreBlank int.tokens "int".toList := .last (.name [] _)
    exact .intro space (by decide) .nil spelled (by decide) space (by decide)

/-- A class with this declaration alone. -/
def pointClass : FieldClass where
  front := "class Point \x7b".toList
  groups := [pointGroup]
  last := [' ']
  fronted := by
    have space : AreBlank [' '] := List.forall_mem_singleton.2 (by decide)
    exact @ClassFront.intro [' '] [' '] ⟨"Point".toList, by decide⟩ space (by decide) (by decide)
      space
  blank := List.forall_mem_singleton.2 (by decide)

/-- The field `y` is lost with the value of `x`. -/
theorem FieldList.ofText_point :
    pointClass.written = "class Point \x7b private int x = 1, y; \x7d" ∧
      pointClass.bare.written = "class Point \x7b private int x , y; \x7d" ∧
      (ofText pointClass.written .standard).map (·.sourceName) = ["x"] ∧
      (ofText pointClass.bare.written .standard).map (·.sourceName) = ["x", "y"] := by
  have read := pointClass.ofText_written .standard
  have meant := pointClass.bare.ofText_written .standard
  refine ⟨by decide, by decide, ?_, ?_⟩
  · rw [read]
    decide +kernel
  · rw [meant]
    decide +kernel

end InterfaceGen.Source
