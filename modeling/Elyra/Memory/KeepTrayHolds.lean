import Elyra.Framework.Effects
import Elyra.Framework.Run
import Elyra.Memory.KeepTray

namespace Elyra.Memory.DirectedKeepTray

/-- The time of the last reinforcement, where the text stands for one. -/
def timeOf (e : KeepTrayEntry) : Option Instant :=
  match utcOf e.lastReinforcedAt with
  | .ok t => some t
  | .error _ => none

theorem epoch_lt : 62135596800000000 < instantCount := by decide

/-- The first of January 1970. -/
def epoch : Instant := ⟨62135596800000000, epoch_lt⟩

/-- Where a float of seconds since the epoch tells one microsecond from the next: within `2 ^ 33`
seconds of it, the years 1697 to 2242. -/
def Separable (t : Instant) : Prop := (age t epoch).natAbs ≤ 2 ^ 33 * 1000000

/-- What `timestamp` keeps of the order of the instants. -/
class LawfulTimestamp [TrayFloat] : Prop where
  epoch : TrayFloat.timestamp epoch = 0
  mono : ∀ s t : Instant, s ≤ t → TrayFloat.timestamp s ≤ TrayFloat.timestamp t
  separates : ∀ s t : Instant, Separable s → Separable t → s < t →
    TrayFloat.timestamp s ≠ TrayFloat.timestamp t

/-- Distinct ids, and no time beyond the years 1 to 9999 in UTC. -/
structure Sound (tray : DirectedKeepTray) : Prop where
  ids : (tray.entries.map KeepTrayEntry.atomId).Nodup
  times : ∀ e ∈ tray.entries, utcOf e.lastReinforcedAt ≠ .error .overflowError

section Times

variable {es : List KeepTrayEntry}

end Times

section Confirm

variable {now : String} {sessionId momentId : Option String} {before es : List KeepTrayEntry}

end Confirm

section Passes

variable [TrayFloat] {tray : DirectedKeepTray} {now : String} {time : Instant}

def key (e : KeepTrayEntry) : ℚ ×ₗ String := rank e (timeOf e)

/-- When the entry was last reinforced; one without a readable time counts as of the epoch. -/
def reinforcedAt (e : KeepTrayEntry) : Instant := (timeOf e).getD epoch

/-- One float of seconds stands for both times. -/
def Tied (e f : KeepTrayEntry) : Prop :=
  TrayFloat.timestamp (reinforcedAt e) = TrayFloat.timestamp (reinforcedAt f)

/-- The first entry was reinforced before the second; where the floats tie, the ids decide. -/
def Before (e f : KeepTrayEntry) : Prop :=
  ¬Tied e f ∧ reinforcedAt e < reinforcedAt f ∨ Tied e f ∧ e.atomId < f.atomId

instance (e f : KeepTrayEntry) : Decidable (Before e f) := by
  unfold Before Tied
  infer_instance

/-- The entries that the hard age leaves. -/
def within (hours : FloatLit) (time : Instant) (es : List KeepTrayEntry) : List KeepTrayEntry :=
  es.filter fun e => withinTtl hours time (timeOf e)

/-- Among separable times the ties are equal times. -/
theorem before_iff [LawfulTimestamp] {e f : KeepTrayEntry} (he : Separable (reinforcedAt e))
    (hf : Separable (reinforcedAt f)) : Before e f ↔
      reinforcedAt e < reinforcedAt f ∨ reinforcedAt e = reinforcedAt f ∧ e.atomId < f.atomId := by
  have htied : Tied e f ↔ reinforcedAt e = reinforcedAt f := by
    refine ⟨fun h => ?_, fun h => congrArg TrayFloat.timestamp h⟩
    obtain hlt | heq | hgt := lt_trichotomy (reinforcedAt e) (reinforcedAt f)
    · exact absurd h (LawfulTimestamp.separates _ _ he hf hlt)
    · exact heq
    · exact absurd h.symm (LawfulTimestamp.separates _ _ hf he hgt)
  rw [Before, htied]
  exact or_congr_left (and_iff_right_of_imp fun h => ne_of_lt h)

end Passes
end Elyra.Memory.DirectedKeepTray
