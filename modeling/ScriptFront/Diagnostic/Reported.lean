import ScriptFront.Diagnostic.Basic
import ScriptFront.Token.Basic

/-!
# Values with diagnostics

The analysis of a program goes on after a fault: it answers a value together
with everything that it has found wrong on the way, in order.
-/
namespace ScriptFront

/-- A value and the diagnostics that were found on the way to it. -/
structure Reported (α : Type) where
  value : α
  diagnostics : List Diagnostic := []
deriving Repr

namespace Reported

instance : Monad Reported where
  pure a := ⟨a, []⟩
  bind x f :=
    let y := f x.value
    ⟨y.value, x.diagnostics ++ y.diagnostics⟩

@[simp] theorem value_pure (a : α) : (pure a : Reported α).value = a := rfl

@[simp] theorem diagnostics_pure (a : α) : (pure a : Reported α).diagnostics = [] := rfl

@[simp] theorem value_bind (x : Reported α) (f : α → Reported β) :
    (x >>= f).value = (f x.value).value := rfl

@[simp] theorem diagnostics_bind (x : Reported α) (f : α → Reported β) :
    (x >>= f).diagnostics = x.diagnostics ++ (f x.value).diagnostics := rfl

theorem ext {x y : Reported α} (hv : x.value = y.value)
    (hd : x.diagnostics = y.diagnostics) : x = y := by
  cases x
  cases y
  simp_all

instance : LawfulMonad Reported :=
  LawfulMonad.mk' Reported (fun _ => ext rfl (List.append_nil _))
    (fun _ _ => ext rfl (List.nil_append _)) (fun _ _ _ => ext rfl (List.append_assoc _ _ _))

def report (fault : Fault) (token : Token) : Reported Unit :=
  ⟨(), [⟨fault, token.position⟩]⟩

@[simp] theorem diagnostics_report (fault : Fault) (token : Token) :
    (report fault token).diagnostics = [⟨fault, token.position⟩] := rfl

/-- Reports the error of a computation that has one; then there is no value. -/
def ofExcept : Except Diagnostic α → Reported (Option α)
  | .ok a => ⟨some a, []⟩
  | .error d => ⟨none, [d]⟩

end Reported

end ScriptFront
