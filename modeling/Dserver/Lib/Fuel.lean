import Dserver.Lib.Machine

/-!
# Results of loops with fuel

`out` is the error of a loop whose fuel is used up. A computation settles on the result it has with enough fuel; a loop
that never ends settles on `out` itself.
-/

namespace Dserver.Lib

variable {ε α β : Type} {out : ε}

def Settles (out : ε) (x : Nat → Except ε α) (r : Except ε α) : Prop :=
  (∀ fuel, x fuel = .error out ∨ x fuel = r) ∧ ∃ enough, ∀ fuel, enough ≤ fuel → x fuel = r

namespace Settles

variable {x : Nat → Except ε α} {r : Except ε α}

theorem const (r : Except ε α) : Settles out (fun _ => r) r := ⟨fun _ => .inr rfl, 0, fun _ _ => rfl⟩

theorem eq_of_ok (h : Settles out x r) {fuel : Nat} {a : α} (ran : x fuel = .ok a) : r = .ok a := by
  rcases h.1 fuel with short | same
  · rw [ran] at short
    cases short
  · exact same.symm.trans ran

theorem reached (h : Settles out x r) : ∃ fuel, x fuel = r := by
  obtain ⟨-, enough, all⟩ := h
  exact ⟨enough, all enough (Nat.le_refl _)⟩

theorem spend (zero : x 0 = .error out) (h : Settles out (fun fuel => x (fuel + 1)) r) : Settles out x r := by
  obtain ⟨each, enough, all⟩ := h
  refine ⟨fun fuel => ?_, enough + 1, fun fuel le => ?_⟩
  · cases fuel with
    | zero => exact .inl zero
    | succ fuel => exact each fuel
  · cases fuel with
    | zero => omega
    | succ fuel => exact all fuel (by omega)

theorem bind {f : Nat → α → Except ε β} {a : α} {r : Except ε β} (first : Settles out x (.ok a))
    (next : Settles out (fun fuel => f fuel a) r) : Settles out (fun fuel => x fuel >>= f fuel) r := by
  obtain ⟨each, m, all⟩ := first
  obtain ⟨each', n, all'⟩ := next
  refine ⟨fun fuel => ?_, m + n, fun fuel le => ?_⟩
  · dsimp only
    rcases each fuel with short | ran
    · rw [short]
      exact .inl rfl
    · rw [ran]
      exact each' fuel
  · dsimp only
    rw [all fuel (by omega)]
    exact all' fuel (by omega)

theorem bind_error {f : Nat → α → Except ε β} {fault : ε} (first : Settles out x (.error fault)) :
    Settles out (fun fuel => x fuel >>= f fuel) (.error fault) := by
  obtain ⟨each, enough, all⟩ := first
  refine ⟨fun fuel => ?_, enough, fun fuel le => ?_⟩
  · dsimp only
    rcases each fuel with short | ran
    · rw [short]
      exact .inl rfl
    · rw [ran]
      exact .inr rfl
  · dsimp only
    rw [all fuel le]
    rfl

end Settles

end Dserver.Lib
