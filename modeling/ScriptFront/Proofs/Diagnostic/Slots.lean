import Mathlib.Data.Multiset.Bind
import ScriptFront.Diagnostic.Reported

/-!
# Slots for diagnostics

A slot is a place together with the name of a fault. What an analysis reports fills slots,
and nothing is reported twice if no slot is filled twice. A tree has each slot at most once
at each of its tokens, so it is enough that all reports together fit into the slots of
the tree.
-/
namespace ScriptFront

/-- A place and the name of a fault. -/
abbrev Slot := Position × String

def Diagnostic.slot (d : Diagnostic) : Slot := (d.position, d.fault.name)

/-- The slots that are filled by what was reported, each as often as it is filled. -/
def Reported.slots {α : Type} (r : Reported α) : Multiset Slot :=
  (r.diagnostics.map Diagnostic.slot : List Slot)

namespace Reported

variable {α β : Type}

@[simp] theorem slots_pure (a : α) : (Pure.pure a : Reported α).slots = 0 := rfl

@[simp] theorem slots_bind (x : Reported α) (f : α → Reported β) :
    (x >>= f).slots = x.slots + (f x.value).slots := by
  unfold slots
  rw [diagnostics_bind, List.map_append, Multiset.coe_add]

@[simp] theorem slots_report (fault : Fault) (token : Token) :
    (report fault token).slots = {(token.position, fault.name)} := rfl

end Reported

/-- The slots at tokens for faults with these names. -/
def Token.slots (tokens : List Token) (names : Multiset String) : Multiset Slot :=
  (tokens.map Token.position : Multiset Position) ×ˢ names

namespace Token

variable {t : Token} {ts us : List Token} {names names' all : Multiset String}

@[simp] theorem slots_append : slots (ts ++ us) names = slots ts names + slots us names := by
  unfold slots
  rw [List.map_append, ← Multiset.coe_add, Multiset.add_product]

theorem slots_cons (t : Token) (ts : List Token) (names : Multiset String) :
    slots (t :: ts) names = slots [t] names + slots ts names :=
  @slots_append [t] ts names

theorem slots_add : slots ts (names + names') = slots ts names + slots ts names' :=
  Multiset.product_add _ _ _

theorem slots_mono (h : names ≤ names') : slots ts names ≤ slots ts names' := by
  obtain ⟨rest, rfl⟩ := Multiset.le_iff_exists_add.mp h
  rw [slots_add]
  exact Multiset.le_add_right _ _

theorem slots_le_of_sublist (h : ts.Sublist us) : slots ts names ≤ slots us names := by
  have hle : (ts.map position : Multiset Position) ≤ us.map position :=
    Multiset.coe_le.mpr (h.map position).subperm
  obtain ⟨rest, hrest⟩ := Multiset.le_iff_exists_add.mp hle
  unfold slots
  rw [hrest, Multiset.add_product]
  exact Multiset.le_add_right _ _

/-- What is reported at a token fills one of its slots. -/
theorem slots_report_le {fault : Fault} (name : String) (hname : fault.name = name)
    (h : name ∈ names) : (Reported.report fault t).slots ≤ slots [t] names := by
  rw [Reported.slots_report, hname]
  exact slots_mono (Multiset.singleton_le.mpr h)

theorem slots_reporting_le {α : Type} {fault : Fault} {a : α} (name : String)
    (hname : fault.name = name) (h : name ∈ names) :
    (Reported.report fault t >>= fun _ => (Pure.pure a : Reported α)).slots ≤ slots [t] names := by
  rw [Reported.slots_bind, Reported.slots_pure, add_zero]
  exact slots_report_le name hname h

theorem slots_add_le (h : names + names' ≤ all) :
    slots ts names + slots ts names' ≤ slots ts all :=
  slots_add ▸ slots_mono h

theorem position_of_mem_slots {s : Slot} (h : s ∈ slots ts names) :
    ∃ t ∈ ts, t.position = s.1 := by
  obtain ⟨hposition, -⟩ := Multiset.mem_product.mp h
  exact List.mem_map.mp hposition

theorem nodup_slots (hts : (ts.map position).Nodup) (hnames : names.Nodup) :
    (slots ts names).Nodup :=
  Multiset.Nodup.product (Multiset.coe_nodup.mpr hts) hnames

end Token

end ScriptFront
