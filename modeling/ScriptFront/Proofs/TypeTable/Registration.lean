import Mathlib.Logic.Relation
import Mathlib.Tactic.Common
import ScriptFront.TypeTable

/-!
# Registered types

Types are told apart by their numbers, but they are registered under names, and the name of
an array is put together from that of its elements. As long as brackets at the end of a name
are left to arrays, both agree: a name tells the number, and the name of an array tells
which type its elements have. No registration changes what is there already, so a type that
was found once is found again.
-/
namespace ScriptFront.TypeTable

variable {t u : TypeTable} {info i : TypeInfo} {type other element : TypeId} {name : String}

/-! ## One registration -/

/-- The number stands for a type of the table. -/
def Registered (t : TypeTable) (type : TypeId) : Prop := type.index < t.size

/-- The table `u` has the types of `t` under the same numbers, and may have more. -/
def Extends (t u : TypeTable) : Prop := t.types <+: u.types

/-- What the table says of the arrays of a type. -/
def arrayInfo (t : TypeTable) (element : TypeId) : TypeInfo :=
  ⟨t.nameOf element ++ "[]", 4, some element⟩

theorem registered_of_info? (h : t.info? type = some i) : t.Registered type :=
  (List.getElem?_eq_some_iff.mp h).choose

theorem Registered.exists_info? (h : t.Registered type) : ∃ i, t.info? type = some i :=
  ⟨_, List.getElem?_eq_getElem h⟩

theorem nameOf_of_info? (h : t.info? type = some i) : t.nameOf type = i.name := by
  rw [nameOf, h, Option.map_some, Option.getD_some]

theorem Extends.info? (h : t.Extends u) (htype : t.Registered type) :
    u.info? type = t.info? type := by
  obtain ⟨later, hlater⟩ := h
  rw [TypeTable.info?, TypeTable.info?, ← hlater]
  exact List.getElem?_append_left htype

theorem Extends.nameOf (h : t.Extends u) (htype : t.Registered type) :
    u.nameOf type = t.nameOf type := by
  rw [TypeTable.nameOf, TypeTable.nameOf, h.info? htype]

theorem Extends.registered (h : t.Extends u) (htype : t.Registered type) : u.Registered type :=
  Nat.lt_of_lt_of_le htype h.length_le

theorem Extends.arrayInfo (h : t.Extends u) (helement : t.Registered element) :
    u.arrayInfo element = t.arrayInfo element := by
  rw [TypeTable.arrayInfo, TypeTable.arrayInfo, h.nameOf helement]

theorem info?_of_get? (h : t.get? name = some type) :
    ∃ i, t.info? type = some i ∧ i.name = name := by
  obtain ⟨n, hn, rfl⟩ := Option.map_eq_some_iff.mp h
  obtain ⟨hlt, hname, -⟩ := List.findIdx?_eq_some_iff_getElem.mp hn
  exact ⟨t.types[n], List.getElem?_eq_getElem hlt, by simpa using hname⟩

theorem get?_eq_none_iff : t.get? name = none ↔ name ∉ t.types.map TypeInfo.name := by
  simp [get?, List.findIdx?_eq_none_iff]

theorem insert_of_get? (h : t.get? info.name = some type) : t.insert info = (type, t) := by
  rw [insert, h]

theorem getElem?_names (h : t.info? type = some i) :
    (t.types.map TypeInfo.name)[type.index]? = some i.name := by
  rw [List.getElem?_map]
  exact congrArg (Option.map TypeInfo.name) h

/-- A registration finds the name taken and changes nothing, or puts a type behind all
others. -/
theorem insert_cases (t : TypeTable) (info : TypeInfo) :
    (∃ type, t.get? info.name = some type ∧ t.insert info = (type, t)) ∨
      (info.name ∉ t.types.map TypeInfo.name ∧
        t.insert info = (⟨t.size⟩, ⟨t.types ++ [info]⟩)) := by
  cases h : t.get? info.name with
  | some type => exact .inl ⟨type, rfl, insert_of_get? h⟩
  | none => exact .inr ⟨get?_eq_none_iff.mp h, by rw [insert, h]⟩

theorem extends_insert (t : TypeTable) (info : TypeInfo) : t.Extends (t.insert info).2 := by
  rcases t.insert_cases info with ⟨type, -, h⟩ | ⟨-, h⟩
  · rw [h]
    exact List.prefix_refl _
  · rw [h]
    exact List.prefix_append _ _

/-- The type that a registration answers has the name that was asked for. -/
theorem info?_insert (t : TypeTable) (info : TypeInfo) :
    ∃ i, (t.insert info).2.info? (t.insert info).1 = some i ∧ i.name = info.name := by
  rcases t.insert_cases info with ⟨type, hget, h⟩ | ⟨-, h⟩
  · rw [h]
    exact info?_of_get? hget
  · rw [h]
    exact ⟨info, List.getElem?_concat_length, rfl⟩

/-! ## Names of arrays -/

/-- The name ends as the names of arrays do. -/
def IsArrayName (name : String) : Prop := ['[', ']'] <:+ name.toList

instance (name : String) : Decidable (IsArrayName name) :=
  inferInstanceAs (Decidable (['[', ']'] <:+ name.toList))

theorem isArrayName_append (name : String) : IsArrayName (name ++ "[]") :=
  ⟨name.toList, by rw [String.toList_append]; rfl⟩

theorem append_brackets_inj {name name' : String} (h : name ++ "[]" = name' ++ "[]") :
    name = name' := by
  rw [← String.toList_inj, String.toList_append, String.toList_append] at h
  exact String.toList_inj.mp (List.append_cancel_right h)

/-! ## Tables in which names and numbers agree -/

/-- What is said of a type: it is the array of a type with a smaller number, or its name
does not end with brackets. -/
inductive Describes (t : TypeTable) (type : TypeId) : TypeInfo → Prop
  | plain {name : String} {size : ℕ} : ¬ IsArrayName name → Describes t type { name, size }
  | array {element : TypeId} : element.index < type.index →
      Describes t type (t.arrayInfo element)

/-- No name is registered twice, and only arrays have the names of arrays. -/
structure Sound (t : TypeTable) : Prop where
  distinct : (t.types.map TypeInfo.name).Nodup
  describes {type : TypeId} {i : TypeInfo} : t.info? type = some i → t.Describes type i

theorem sound_empty : empty.Sound where
  distinct := List.nodup_nil
  describes h := by cases h

theorem Describes.extend (h : t.Describes type i) (htype : type.index ≤ t.size)
    (hext : t.Extends u) : u.Describes type i := by
  cases h with
  | plain hname => exact .plain hname
  | @array element hlt =>
      have helement : t.Registered element := Nat.lt_of_lt_of_le hlt htype
      rw [← hext.arrayInfo helement]
      exact .array hlt

/-- A new type is described by the types before it. -/
theorem Sound.insert (h : t.Sound) (hinfo : t.Describes ⟨t.size⟩ info) :
    (t.insert info).2.Sound := by
  have hext := t.extends_insert info
  rcases t.insert_cases info with ⟨type, -, heq⟩ | ⟨hnew, heq⟩
  · rw [heq]
    exact h
  · rw [heq] at hext ⊢
    refine ⟨?_, fun {type i} hi => ?_⟩
    · rw [List.map_append]
      exact List.nodup_append.mpr ⟨h.distinct, by simp, fun a ha b hb hab =>
        hnew (List.mem_singleton.mp hb ▸ hab ▸ ha)⟩
    · have hlt : type.index < (t.types ++ [info]).length := registered_of_info? hi
      rw [List.length_append, List.length_singleton] at hlt
      rcases Nat.lt_succ_iff_lt_or_eq.mp hlt with hold | hlast
      · rw [hext.info? hold] at hi
        exact (h.describes hi).extend (Nat.le_of_lt hold) hext
      · obtain rfl : type = ⟨t.size⟩ := congrArg TypeId.mk hlast
        obtain rfl : info = i := by simpa [TypeTable.info?, TypeTable.size] using hi
        exact hinfo.extend (Nat.le_refl _) hext

/-- The name of a type leads to the type, since no other has it. -/
theorem Sound.get?_nameOf (h : t.Sound) (htype : t.Registered type) :
    t.get? (t.nameOf type) = some type := by
  obtain ⟨i, hi⟩ := htype.exists_info?
  have hname := getElem?_names hi
  obtain ⟨found, hfound⟩ : ∃ found, t.get? i.name = some found := by
    rw [← Option.ne_none_iff_exists', ne_eq, get?_eq_none_iff, not_not]
    exact List.mem_of_getElem? hname
  obtain ⟨j, hj, hji⟩ := info?_of_get? hfound
  have hindex : type.index = found.index := by
    refine (List.getElem?_inj ?_ h.distinct).mp ?_
    · rw [List.length_map]
      exact htype
    · rw [hname, getElem?_names hj, hji]
  rw [nameOf_of_info? hi, hfound]
  exact congrArg some (congrArg TypeId.mk hindex.symm)

/-! ## Tables that were built -/

/-- A type or the arrays of a type are registered. Brackets at the end of a name are left to
arrays. -/
inductive Registers : TypeTable → TypeTable → Prop
  | add {t : TypeTable} {name : String} {size : ℕ} :
      ¬ IsArrayName name → Registers t (t.add name size).2
  | addArray {t : TypeTable} {element : TypeId} :
      t.Registered element → Registers t (t.addArray element).2

/-- The table `u` is left of the table `t` after any number of registrations. -/
def Later : TypeTable → TypeTable → Prop := Relation.ReflTransGen Registers

/-- The table is built by registrations. -/
def Built (t : TypeTable) : Prop := empty.Later t

theorem Registers.extend (h : t.Registers u) : t.Extends u := by
  cases h with
  | add => exact t.extends_insert _
  | addArray => exact t.extends_insert _

/-- No registration takes anything back. -/
theorem Later.extend (h : t.Later u) : t.Extends u := by
  induction h with
  | refl => exact List.prefix_refl _
  | tail _ hstep ih => exact ih.trans hstep.extend

theorem Registers.sound (h : t.Registers u) (ht : t.Sound) : u.Sound := by
  cases h with
  | add hname => exact ht.insert (.plain hname)
  | addArray helement => exact ht.insert (.array helement)

theorem Later.sound (h : t.Later u) (ht : t.Sound) : u.Sound := by
  induction h with
  | refl => exact ht
  | tail _ hstep ih => exact hstep.sound ih

theorem registered_insert (t : TypeTable) (info : TypeInfo) :
    (t.insert info).2.Registered (t.insert info).1 := by
  obtain ⟨i, hi, -⟩ := t.info?_insert info
  exact registered_of_info? hi

theorem Built.addWithArray (h : t.Built) (name : String) (size : ℕ) (hname : ¬ IsArrayName name) :
    (t.addWithArray name size).Built :=
  (Relation.ReflTransGen.tail h (.add hname)).tail (.addArray (t.registered_insert _))

/-- The types of the language are built by registrations. -/
theorem built_primitives : primitives.Built := by
  have hvoid : (empty.add "void" 0).2.Built := .single (.add (by decide))
  have hint := hvoid.addWithArray "int" 4 (by decide)
  have hfloat := hint.addWithArray "float" 4 (by decide)
  have hbool := hfloat.addWithArray "bool" 1 (by decide)
  exact hbool.addWithArray "string" 4 (by decide)

/-! ## What the table answers -/

/-- The arrays of a type have its number as that of their elements, also where they were
registered before. -/
theorem Sound.info?_addArray (h : t.Sound) (helement : t.Registered element) :
    (t.addArray element).2.info? (t.addArray element).1 = some (t.arrayInfo element) := by
  have hext : t.Extends (t.addArray element).2 := t.extends_insert _
  have hsound : (t.addArray element).2.Sound := h.insert (.array helement)
  obtain ⟨i, hi, hname⟩ := t.info?_insert (t.arrayInfo element)
  change (t.addArray element).2.info? (t.addArray element).1 = some i at hi
  rw [hi]
  change i.name = t.nameOf element ++ "[]" at hname
  cases hsound.describes hi with
  | @plain name size hplain =>
      obtain rfl : name = t.nameOf element ++ "[]" := hname
      exact absurd (isArrayName_append _) hplain
  | @array other hlt =>
      have hother : (t.addArray element).2.Registered other :=
        Nat.lt_trans hlt (registered_of_info? hi)
      have hnames : (t.addArray element).2.nameOf other = (t.addArray element).2.nameOf element :=
        (append_brackets_inj hname).trans (hext.nameOf helement).symm
      have hget := hsound.get?_nameOf hother
      rw [hnames, hsound.get?_nameOf (hext.registered helement)] at hget
      obtain rfl := Option.some.inj hget
      rw [hext.arrayInfo helement]

/-- Names, numbers and arrays go together in a table. -/
structure Lawful (t : TypeTable) : Prop where
  /-- The name of a type leads to its number, -/
  get_name {type : TypeId} : t.Registered type → t.get? (t.nameOf type) = some type
  /-- so that no two types have the same name. -/
  name_injective {type other : TypeId} : t.Registered type → t.Registered other →
    t.nameOf type = t.nameOf other → type = other
  /-- A number keeps its meaning, and a name its number, whatever is registered later. -/
  stable {u : TypeTable} {type : TypeId} : t.Later u → t.Registered type →
    u.Registered type ∧ u.info? type = t.info? type ∧ u.get? (t.nameOf type) = some type
  /-- Where a name is taken, nothing happens, -/
  taken {name : String} {type : TypeId} (size : ℕ) : t.get? name = some type →
    t.add name size = (type, t)
  /-- and otherwise there is a new type, which is no array. -/
  added {name : String} (size : ℕ) : t.get? name = none →
    ¬ t.Registered (t.add name size).1 ∧
      (t.add name size).2.info? (t.add name size).1 = some ⟨name, size, none⟩
  /-- The elements of arrays are registered before the arrays. -/
  element_lt {type element : TypeId} : t.element? type = some element →
    element.index < type.index
  /-- The arrays of a type are named after it, and have it as the type of their elements. -/
  array {element : TypeId} : t.Registered element →
    (t.addArray element).2.info? (t.addArray element).1 =
      some ⟨t.nameOf element ++ "[]", 4, some element⟩
  /-- To register them again does nothing, -/
  array_again {u : TypeTable} {element : TypeId} : t.Registered element →
    (t.addArray element).2.Later u → u.addArray element = ((t.addArray element).1, u)
  /-- and they are the arrays of no other type. -/
  array_injective {u : TypeTable} {element other : TypeId} : t.Registered element →
    (t.addArray element).2.Later u → u.Registered other →
    (u.addArray other).1 = (t.addArray element).1 → other = element

/-- The arrays of a type are what they are in all later tables. -/
theorem Sound.info?_later (h : t.Sound) (helement : t.Registered element)
    (hlater : (t.addArray element).2.Later u) :
    u.info? (t.addArray element).1 = some (t.arrayInfo element) := by
  have hinfo := h.info?_addArray helement
  rw [hlater.extend.info? (registered_of_info? hinfo), hinfo]

theorem Sound.name_injective (h : t.Sound) (htype : t.Registered type)
    (hother : t.Registered other) (hnames : t.nameOf type = t.nameOf other) : type = other := by
  have hget := h.get?_nameOf htype
  rw [hnames, h.get?_nameOf hother] at hget
  exact (Option.some.inj hget).symm

theorem Sound.lawful (h : t.Sound) : t.Lawful where
  get_name := h.get?_nameOf
  name_injective := h.name_injective
  stable {u type} hlater htype := by
    have hext := hlater.extend
    refine ⟨hext.registered htype, hext.info? htype, ?_⟩
    rw [← hext.nameOf htype]
    exact (hlater.sound h).get?_nameOf (hext.registered htype)
  taken size hget := insert_of_get? hget
  added size hnone := by
    rw [add, TypeTable.insert, hnone]
    exact ⟨Nat.lt_irrefl _, List.getElem?_concat_length⟩
  element_lt {type element} helement := by
    obtain ⟨i, hi, hielement⟩ := Option.bind_eq_some_iff.mp helement
    cases h.describes hi with
    | plain => cases hielement
    | array hlt =>
        obtain rfl := Option.some.inj hielement
        exact hlt
  array := h.info?_addArray
  array_again {u element} helement hlater := by
    have hall : t.Later u := .head (.addArray helement) hlater
    have hinfo := h.info?_later helement hlater
    have hget := (hall.sound h).get?_nameOf (registered_of_info? hinfo)
    rw [nameOf_of_info? hinfo, ← hall.extend.arrayInfo helement] at hget
    exact insert_of_get? hget
  array_injective {u element other} helement hlater hother heq := by
    have hall : t.Later u := .head (.addArray helement) hlater
    have hinfo := h.info?_later helement (hlater.tail (.addArray hother))
    have hother := (hall.sound h).info?_addArray hother
    rw [heq, hinfo] at hother
    have helements := congrArg TypeInfo.element? (Option.some.inj hother)
    exact (Option.some.inj helements).symm

/-- In a table that was built, names, numbers and arrays go together. -/
theorem lawful_of_built (h : t.Built) : t.Lawful := (Later.sound h sound_empty).lawful

/-- Arrays of arrays of numbers, behind the types of the language and a type that was
registered in between. -/
theorem lawful_of_built_nested :
    let t := ((primitives.add "point" 8).2.addArray ⟨2⟩).2
    t.Built ∧ t.get? "int[][]" = some ⟨10⟩ ∧ t.element? ⟨10⟩ = some ⟨2⟩ ∧ t.Lawful := by
  intro t
  have helement : (primitives.add "point" 8).2.Registered ⟨2⟩ := by
    unfold Registered
    decide
  have ht : t.Built := (built_primitives.tail (.add (by decide))).tail (.addArray helement)
  exact ⟨ht, by decide, by decide, lawful_of_built ht⟩

end ScriptFront.TypeTable
