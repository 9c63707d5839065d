import Elyra.Memory.KeepTrayHolds

namespace Elyra.Memory.DirectedKeepTray

section Laws

variable [TrayFloat]

variable [PyCoerce]

def step (tray : DirectedKeepTray) (args : MergeArgs) : DirectedKeepTray :=
  after (mergeConfirm args tray)

end Laws

section Meals

variable {tray : DirectedKeepTray}

theorem Sound.sublist {es : List KeepTrayEntry} (hs : Sound tray)
    (hsub : es.Sublist tray.entries) : Sound { tray with entries := es } :=
  ⟨hs.ids.sublist (hsub.map _), fun e he => hs.times e (hsub.subset he)⟩

variable [TrayFloat]

end Meals

section Merge

variable [PyCoerce] {tray : DirectedKeepTray}

variable [TrayFloat]

end Merge

section Sample

/-- Whole hours, compared exactly. -/
def wholeHours : FloatLit → Int
  | .decimal neg whole _ _ _ => if neg then -whole else whole
  | _ => 0

@[reducible] def basicTray : TrayFloat :=
  { basicFloat with
    positive := fun h => 0 < wholeHours h
    exceeds := fun h a => wholeHours h * 3600000000 < a
    reaches := fun h a => max 0 (wholeHours h) * 3600000000 ≤ max 0 a
    timestamp := fun t => (age t epoch : ℚ) / 1000000 }

attribute [local instance] basicCoerce basicTray

theorem age_lt_age {s t u : Instant} : age s u < age t u ↔ s < t := by
  rw [age, age, Fin.lt_def]
  omega

theorem basicTray_lawful : LawfulTimestamp where
  epoch := by decide +kernel
  mono s t h := by
    have hage : (age s epoch : ℚ) ≤ age t epoch :=
      Int.cast_le.mpr (not_lt.mp fun hlt => absurd (age_lt_age.mp hlt) (not_lt.mpr h))
    exact (div_le_div_iff_of_pos_right (by norm_num)).mpr hage
  separates s t _ _ h := by
    have hage : (age s epoch : ℚ) < age t epoch := Int.cast_lt.mpr (age_lt_age.mpr h)
    exact ne_of_lt ((div_lt_div_iff_of_pos_right (by norm_num)).mpr hage)

attribute [local instance] basicTray_lawful

theorem sampleClock_lt : 63000000000000000 < instantCount := by decide

def sampleClock (_ : Nat) : Instant := ⟨63000000000000000, sampleClock_lt⟩

end Sample

end Elyra.Memory.DirectedKeepTray
