import Elyra.Ladder.ClosedHours
import Elyra.Memory.Windows

namespace Elyra.Ladder

open Memory

/-- Windows from a cursor on, those that meet `[from, to)`. -/
def windowsFrom (scale : PeriodScale) (startBound endBound cursor : Instant) :
    Except PyErr (List (Instant × Instant)) :=
  if cursor < endBound then
    match windowBounds scale cursor with
    | .error err => .error err
    | .ok (wStart, wEnd) =>
      let here := if startBound < wEnd && wStart < endBound then [(wStart, wEnd)] else []
      -- safety: avoid infinite loop on bad grids
      if wEnd ≤ cursor then .ok here
      else
        match windowsFrom scale startBound endBound wEnd with
        | .error err => .error err
        | .ok later => .ok (here ++ later)
  else .ok []
  termination_by endBound.val - cursor.val
  decreasing_by
    have hcursor : cursor < endBound := by assumption
    have hend : ¬wEnd ≤ cursor := by assumption
    rw [Fin.lt_def] at hcursor
    rw [Fin.le_def] at hend
    omega

/-- `list(iter_windows(scale, t_from, t_to))`. -/
def iterWindows (scale : PeriodScale) (startBound endBound : Instant) :
    Except PyErr (List (Instant × Instant)) := do
  if endBound ≤ startBound then return []
  else
    let (cursor, _) ← windowBounds scale startBound
    windowsFrom scale startBound endBound cursor

/-- A window of the grid of a scale. -/
def IsWindow (scale : PeriodScale) (w : Instant × Instant) : Prop :=
  ∃ t, windowBounds scale t = .ok w

/-- Each window ends where the next one starts. -/
def Tiles (ws : List (Instant × Instant)) : Prop := ws.IsChain fun w v => w.2 = v.1

variable {scale : PeriodScale} {t a b : Instant} {w v : Instant × Instant}
  {ws : List (Instant × Instant)}

theorem monthSpan_le_year (d : CivilDate) : (monthSpan d).2 ≤ daysBeforeYear (d.year + 1) := by
  have hmonth := d.month_le
  have hsucc := daysBeforeYear_succ d.year d.year_pos
  have hlast := daysBeforeMonth_succ (isLeap d.year) 12 (by omega) (by omega)
  rw [if_pos rfl] at hlast
  unfold monthSpan
  dsimp only
  split_ifs with h
  · exact le_rfl
  · have hle := daysBeforeMonth_le (isLeap d.year) (d.month + 1) 12 (by omega) (by omega) (by omega)
    omega

theorem floorSpan_le (minutes : Nat) (t : Instant) :
    (floorSpan minutes t).2 ≤ t.val + minutes * microsPerMinute :=
  Nat.add_le_add_right (Nat.div_mul_le_self _ _) _

theorem ofDays_room {span : Nat × Nat} {year : Nat} (h : span.2 ≤ daysBeforeYear (year + 1))
    (hyear : year < 9999) : (ofDays span).2 < instantCount := by
  have hle := daysBeforeYear_le (year + 1) 9999 (Nat.le_add_left 1 year) hyear
  have hmul : span.2 * microsPerDay ≤ daysBeforeYear 9999 * microsPerDay :=
    Nat.mul_le_mul_right _ (h.trans hle)
  exact Nat.lt_of_le_of_lt hmul (by decide)

theorem instant_lt_year (h : t.date.year < 9999) :
    t.val < daysBeforeYear 9999 * microsPerDay := by
  have hday := t.date.dayNumber_lt_year 9999 h
  rw [Instant.dayNumber_date, day_eq] at hday
  exact (Nat.div_lt_iff_lt_mul (by decide)).mp hday

theorem floorSpan_room {minutes : Nat} (hm : minutes ≤ 10080) (h : t.date.year < 9999) :
    (floorSpan minutes t).2 < instantCount := by
  have hle := floorSpan_le minutes t
  have hval := instant_lt_year h
  have hwidth : minutes * microsPerMinute ≤ 10080 * microsPerMinute := Nat.mul_le_mul_right _ hm
  have hroom : daysBeforeYear 9999 * microsPerDay + 10080 * microsPerMinute < instantCount := by
    decide
  omega

/-- Before the year 9999 every window ends in the calendar. -/
theorem windowSpan_room (scale : PeriodScale) (h : t.date.year < 9999) :
    (windowSpan scale t).2 < instantCount := by
  cases scale with
  | m15 => exact floorSpan_room (by decide) h
  | h1 => exact floorSpan_room (by decide) h
  | h6 => exact floorSpan_room (by decide) h
  | d1 => exact floorSpan_room (by decide) h
  | w1 => exact floorSpan_room (by decide) h
  | m1 => exact ofDays_room (monthSpan_le_year t.date) h
  | y1 => exact @ofDays_room _ t.date.year le_rfl h

theorem windowBounds_total (scale : PeriodScale) (h : t.date.year < 9999) :
    ∃ w, windowBounds scale t = .ok w :=
  ⟨_, dif_pos (windowSpan_room scale h)⟩

theorem mem_windowBounds (h : windowBounds scale t = .ok w) : w.1 ≤ t ∧ t < w.2 :=
  windowBounds_mem scale t w.1 w.2 h

theorem windowBounds_inside {u : Instant} (h : windowBounds scale t = .ok w) (hu : w.1 ≤ u)
    (hlt : u < w.2) : windowBounds scale u = .ok w :=
  windowBounds_of_mem h ⟨hu, hlt⟩

theorem IsWindow.lt (h : IsWindow scale w) : w.1 < w.2 := by
  obtain ⟨t, ht⟩ := h
  exact windowBounds_lt ht

theorem IsWindow.bounds (h : IsWindow scale w) {u : Instant} (hu : w.1 ≤ u) (hlt : u < w.2) :
    windowBounds scale u = .ok w := by
  obtain ⟨t, ht⟩ := h
  exact windowBounds_inside ht hu hlt

/-- Two windows with an instant in common are one. -/
theorem IsWindow.eq (h : IsWindow scale w) (k : IsWindow scale v) {u : Instant} (hw : w.1 ≤ u)
    (hw' : u < w.2) (hv : v.1 ≤ u) (hv' : u < v.2) : w = v :=
  Except.ok.inj ((h.bounds hw hw').symm.trans (k.bounds hv hv'))

/-- The window of the end of a window starts there. -/
theorem windowBounds_next (h : IsWindow scale w) (k : windowBounds scale w.2 = .ok v) :
    v.1 = w.2 := by
  have hmem := mem_windowBounds k
  apply hmem.1.eq_of_not_lt
  intro hlt
  obtain hle | hle := le_total w.1 v.1
  · have hsame : w = v := h.eq ⟨_, k⟩ hle hlt le_rfl (hlt.trans hmem.2)
    exact absurd hmem.2 (hsame ▸ lt_irrefl _)
  · have hsame : w = v := h.eq ⟨_, k⟩ le_rfl h.lt hle (h.lt.trans hmem.2)
    exact absurd hmem.2 (hsame ▸ lt_irrefl _)

/-- What the loop of `iter_windows` returns from the start of a window. -/
theorem windowsFrom_spec (cursor : Instant) (hroom : ∀ t, cursor ≤ t → t < b →
      ∃ w, windowBounds scale t = .ok w)
    (hstart : ∀ w, windowBounds scale cursor = .ok w → w.1 = cursor ∧ a < w.2) :
    ∃ ws, windowsFrom scale a b cursor = .ok ws ∧ Tiles ws ∧ (∀ w ∈ ws.head?, w.1 = cursor) ∧
      ∀ w, w ∈ ws ↔ IsWindow scale w ∧ cursor ≤ w.1 ∧ w.1 < b := by
  induction hn : b.val - cursor.val using Nat.strong_induction_on generalizing cursor with
  | _ n ih =>
    subst hn
    rw [windowsFrom]
    split_ifs with hlt
    · obtain ⟨w, hw⟩ := hroom cursor le_rfl hlt
      obtain ⟨hfirst, hpast⟩ := hstart w hw
      have hwindow : IsWindow scale w := ⟨cursor, hw⟩
      have hend : cursor < w.2 := (mem_windowBounds hw).2
      have hnext : ∃ ws, windowsFrom scale a b w.2 = .ok ws ∧ Tiles ws ∧
          (∀ v ∈ ws.head?, v.1 = w.2) ∧ ∀ v, v ∈ ws ↔ IsWindow scale v ∧ w.2 ≤ v.1 ∧ v.1 < b := by
        refine ih _ ?_ w.2 ?_ ?_ rfl
        · have hle := Fin.lt_def.mp hlt
          have hle' := Fin.lt_def.mp hend
          omega
        · exact fun t ht => hroom t (hend.le.trans ht)
        · intro v hv
          exact ⟨windowBounds_next hwindow hv, hpast.trans (mem_windowBounds hv).2⟩
      obtain ⟨later, hrun, htiles, hhead, hmem⟩ := hnext
      have hhere : (decide (a < w.2) && decide (w.1 < b)) = true := by
        rw [hfirst, decide_eq_true hpast, decide_eq_true hlt]
        rfl
      rw [hw]
      simp only [hhere, if_true, if_neg (not_le.mpr hend), hrun]
      refine ⟨w :: later, rfl, ?_, ?_, ?_⟩
      · cases later with
        | nil => exact List.isChain_singleton w
        | cons next rest => exact List.isChain_cons_cons.mpr ⟨(hhead next rfl).symm, htiles⟩
      · intro v hv
        rw [List.head?_cons, Option.mem_some_iff] at hv
        rw [← hv]
        exact hfirst
      · intro v
        rw [List.mem_cons, hmem]
        constructor
        · rintro (rfl | ⟨hv, hle, hvb⟩)
          · exact ⟨hwindow, hfirst.ge, hfirst.trans_lt hlt⟩
          · exact ⟨hv, hend.le.trans hle, hvb⟩
        · rintro ⟨hv, hle, hvb⟩
          -- a window that starts inside this one is this one
          obtain hin | hin := lt_or_ge v.1 w.2
          · exact .inl (hv.eq hwindow le_rfl hv.lt (hfirst.trans_le hle) hin)
          · exact .inr ⟨hv, hin, hvb⟩
    · refine ⟨[], rfl, List.isChain_nil, ?_, ?_⟩
      · intro v hv
        exact absurd hv (Option.not_mem_none v)
      · intro v
        refine ⟨fun hv => absurd hv List.not_mem_nil, ?_⟩
        rintro ⟨-, hle, hvb⟩
        exact absurd (hle.trans_lt hvb) hlt

/-- `iter_windows` yields, in order, the windows that meet the span. -/
theorem iterWindows_spec (hab : a < b)
    (hroom : ∀ t, a ≤ t → t < b → ∃ w, windowBounds scale t = .ok w) :
    ∃ ws, iterWindows scale a b = .ok ws ∧ Tiles ws ∧
      ∀ w, w ∈ ws ↔ IsWindow scale w ∧ w.1 < b ∧ a < w.2 := by
  obtain ⟨first, hfirst⟩ := hroom a le_rfl hab
  have hin := mem_windowBounds hfirst
  have hwindow : IsWindow scale first := ⟨a, hfirst⟩
  have hbounds := hwindow.bounds le_rfl hwindow.lt
  obtain ⟨ws, hrun, htiles, -, hmem⟩ : ∃ ws, windowsFrom scale a b first.1 = .ok ws ∧ Tiles ws ∧
      (∀ w ∈ ws.head?, w.1 = first.1) ∧
        ∀ w, w ∈ ws ↔ IsWindow scale w ∧ first.1 ≤ w.1 ∧ w.1 < b := by
    apply windowsFrom_spec
    · intro t ht htb
      obtain hlt | hge := lt_or_ge t a
      · exact ⟨first, hwindow.bounds ht (hlt.trans hin.2)⟩
      · exact hroom t hge htb
    · intro w hw
      rw [← Except.ok.inj (hbounds.symm.trans hw)]
      exact ⟨rfl, hin.2⟩
  refine ⟨ws, ?_, htiles, ?_⟩
  · rw [iterWindows, if_neg (not_le.mpr hab), hfirst]
    exact hrun
  · intro w
    rw [hmem]
    constructor
    · rintro ⟨hw, hle, hwb⟩
      refine ⟨hw, hwb, ?_⟩
      obtain hlt | hge := lt_or_ge w.1 first.2
      · rw [← hwindow.eq hw hle hlt le_rfl hw.lt]
        exact hin.2
      · exact (hin.2.trans_le hge).trans hw.lt
    · rintro ⟨hw, hwb, haw⟩
      refine ⟨hw, ?_, hwb⟩
      obtain hle | hlt := le_or_gt w.1 a
      · rw [← hwindow.eq hw hin.1 hin.2 hle haw]
      · exact hin.1.trans hlt.le

/-- The window of the instant before a window ends where that one starts. -/
theorem windowBounds_previous (h : IsWindow scale w) {before : Instant}
    (hbefore : before.val + 1 = w.1.val) :
    windowBounds scale before = .ok v ↔ IsWindow scale v ∧ v.2 = w.1 := by
  have hlt : before < w.1 := Fin.lt_def.mpr (by omega)
  constructor
  · intro hv
    have hmem := mem_windowBounds hv
    refine ⟨⟨_, hv⟩, ?_⟩
    have hle : w.1 ≤ v.2 := Fin.le_def.mpr (by have := Fin.lt_def.mp hmem.2; omega)
    apply (hle.eq_of_not_lt ?_).symm
    intro hin
    have hsame := h.eq ⟨_, hv⟩ le_rfl h.lt (hmem.1.trans hlt.le) hin
    rw [← hsame] at hmem
    exact absurd hmem.1 (not_le.mpr hlt)
  · rintro ⟨hv, hend⟩
    apply hv.bounds
    · have hstart := Fin.lt_def.mp hv.lt
      rw [hend] at hstart
      exact Fin.le_def.mpr (by omega)
    · rw [hend]
      exact hlt

/-- The step back from each window needs an instant before it. -/
def Backed (scale : PeriodScale) (ws : List (Instant × Instant)) : Prop :=
  ∀ w ∈ ws, IsWindow scale w ∧ 0 < w.1.val

theorem windowsBack_succ (n : Nat) (start : Instant) :
    windowsBack scale (n + 1) start = .ok ws ↔ ∃ w before older, windowBounds scale start = .ok w ∧
      before.val + 1 = w.1.val ∧ windowsBack scale n before = .ok older ∧ ws = older ++ [w] := by
  rw [windowsBack]
  cases hbounds : windowBounds scale start with
  | error err =>
    constructor
    · intro h
      cases h
    · rintro ⟨w, before, older, hw, -⟩
      cases hw
  | ok w =>
    simp only [bind, Except.bind]
    by_cases hzero : w.1.val = 0
    · rw [if_pos hzero]
      constructor
      · intro h
        cases h
      · rintro ⟨v, before, older, hv, hbefore, -⟩
        rw [← Except.ok.inj hv] at hbefore
        omega
    · rw [if_neg hzero]
      constructor
      · intro h
        obtain ⟨older, holder, h⟩ := except_bind_ok h
        refine ⟨w, _, older, rfl, Nat.succ_pred_eq_of_ne_zero hzero, holder, ?_⟩
        exact (Except.ok.inj h).symm
      · rintro ⟨v, before, older, hv, hbefore, holder, rfl⟩
        obtain rfl := Except.ok.inj hv
        have hval : before = ⟨w.1.val - 1, Nat.lt_of_le_of_lt (Nat.sub_le _ _) w.1.isLt⟩ :=
          Fin.ext (by dsimp only; omega)
        rw [hval] at holder
        rw [holder]
        rfl

/-- Walking back gives the windows that end with that of the start. -/
theorem windowsBack_iff (n : Nat) (start : Instant) :
    windowsBack scale n start = .ok ws ↔ ws.length = n ∧ Tiles ws ∧ Backed scale ws ∧
      ∀ w ∈ ws.getLast?, windowBounds scale start = .ok w := by
  induction n generalizing start ws with
  | zero =>
    rw [windowsBack, List.length_eq_zero_iff]
    constructor
    · intro h
      rw [← Except.ok.inj h]
      refine ⟨rfl, List.isChain_nil, fun w hw => absurd hw List.not_mem_nil, ?_⟩
      intro w hw
      exact absurd hw (Option.not_mem_none w)
    · rintro ⟨rfl, -⟩
      rfl
  | succ n ih =>
    rw [windowsBack_succ]
    constructor
    · rintro ⟨w, before, older, hw, hbefore, holder, rfl⟩
      obtain ⟨hlen, htiles, hback, hlast⟩ := (ih before).mp holder
      have hwindow : IsWindow scale w := ⟨_, hw⟩
      refine ⟨by rw [List.length_append, hlen]; rfl, ?_, ?_, ?_⟩
      · refine List.isChain_append.mpr ⟨htiles, List.isChain_singleton w, ?_⟩
        intro u hu x hx
        rw [List.head?_cons, Option.mem_some_iff] at hx
        rw [← hx]
        exact ((windowBounds_previous hwindow hbefore).mp (hlast u hu)).2
      · intro u hu
        obtain hu | hu := List.mem_append.mp hu
        · exact hback u hu
        · rw [List.mem_singleton.mp hu]
          exact ⟨hwindow, by omega⟩
      · intro u hu
        rw [List.getLast?_concat, Option.mem_some_iff] at hu
        rw [← hu]
        exact hw
    · rintro ⟨hlen, htiles, hback, hlast⟩
      obtain rfl | ⟨older, w, rfl⟩ := List.eq_nil_or_concat' ws
      · exact absurd hlen (by simp)
      · obtain ⟨holder, -, hjoin⟩ := List.isChain_append.mp htiles
        obtain ⟨hwindow, hpos⟩ := hback w (List.mem_append_right _ List.mem_cons_self)
        have hw := hlast w (by rw [List.getLast?_concat]; rfl)
        have hbefore : w.1.val - 1 < instantCount := Nat.lt_of_le_of_lt (Nat.sub_le _ _) w.1.isLt
        refine ⟨w, ⟨w.1.val - 1, hbefore⟩, older, hw, ?_, ?_, rfl⟩
        · dsimp only
          omega
        · rw [List.length_append, List.length_singleton] at hlen
          refine (ih _).mpr ⟨Nat.succ.inj hlen, holder, ?_, ?_⟩
          · exact fun u hu => hback u (List.mem_append_left _ hu)
          · intro u hu
            have hmem := List.mem_of_mem_getLast? hu
            refine (windowBounds_previous hwindow ?_).mpr ⟨(hback u (List.mem_append_left _ hmem)).1,
              hjoin u hu w rfl⟩
            dsimp only
            omega

theorem windowsInHorizon_iff (now : Instant) (n : Int) :
    windowsInHorizon scale now n = .ok ws ↔ ws.length = (max 1 n).toNat ∧ Tiles ws ∧
      Backed scale ws ∧ ∀ w ∈ ws.getLast?, windowBounds scale now = .ok w := by
  have hlong : ws.length = (max 1 n).toNat → ∃ w, ws.getLast? = some w := by
    intro hlen
    have hpos : 0 < ws.length := by omega
    exact ⟨_, List.getLast?_eq_some_getLast (List.ne_nil_of_length_pos hpos)⟩
  rw [windowsInHorizon]
  cases hnow : windowBounds scale now with
  | error err =>
    constructor
    · intro h
      cases h
    · rintro ⟨hlen, -, -, hlast⟩
      obtain ⟨w, hw⟩ := hlong hlen
      cases hlast w hw
  | ok first =>
    have hwindow : IsWindow scale first := ⟨now, hnow⟩
    show windowsBack scale _ first.1 = _ ↔ _
    rw [windowsBack_iff, hwindow.bounds le_rfl hwindow.lt]

/-- Calendar windows tile time, forwards and backwards. -/
theorem windows_tile (scale : PeriodScale) :
    (∀ t : Instant, t.date.year < 9999 → ∃ w, windowBounds scale t = .ok w) ∧
    (∀ t s e, windowBounds scale t = .ok (s, e) → s ≤ t ∧ t < e ∧
      (∀ u, s ≤ u → u < e → windowBounds scale u = .ok (s, e)) ∧
      ∀ w, windowBounds scale e = .ok w → w.1 = e) ∧
    (∀ a b : Instant, a < b → (∀ t, a ≤ t → t < b → ∃ w, windowBounds scale t = .ok w) →
      ∃ ws, iterWindows scale a b = .ok ws ∧ Tiles ws ∧
        ∀ w, w ∈ ws ↔ IsWindow scale w ∧ w.1 < b ∧ a < w.2) ∧
    (∀ now n ws, windowsInHorizon scale now n = .ok ws ↔ ws.length = (max 1 n).toNat ∧ Tiles ws ∧
      Backed scale ws ∧ ∀ w ∈ ws.getLast?, windowBounds scale now = .ok w) := by
  refine ⟨fun t => windowBounds_total scale, ?_, fun a b => iterWindows_spec, fun now n ws =>
    windowsInHorizon_iff now n⟩
  intro t s e h
  have hwindow : IsWindow scale (s, e) := ⟨t, h⟩
  have hmem := mem_windowBounds h
  exact ⟨hmem.1, hmem.2, fun u => hwindow.bounds, fun w => windowBounds_next hwindow⟩

/-- No window back is read as one, and the step back from the first window of all is taken. -/
theorem windowsInHorizon_edges :
    windowsInHorizon .h1 ⟨7200000000, by decide⟩ 0 =
      .ok [(⟨7200000000, by decide⟩, ⟨10800000000, by decide⟩)] ∧
    windowsInHorizon .h1 ⟨0, by decide⟩ 1 = .error .overflowError := by
  exact ⟨rfl, rfl⟩

end Elyra.Ladder
