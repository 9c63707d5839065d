import Elyra.Memory.AtomsOnDisk

namespace Elyra.Memory

namespace JsonlMemoryStore

section Newer

variable [PyCoerce] {a b c : Atom}

theorem newer_eq_ok {v : Bool} (h : newer a b = .ok v) :
    ∃ m n, a.version = .ok m ∧ b.version = .ok n ∧
      v = decide (toLex (n, b.atomId) < (toLex (m, a.atomId) : Int ×ₗ String)) := by
  obtain ⟨ka, hka, h⟩ := except_bind_ok h
  obtain ⟨kb, hkb, h⟩ := except_bind_ok h
  rw [Atom.summaryVersionKey] at hka hkb
  cases hm : a.version with
  | error e => rw [hm] at hka; cases hka
  | ok m =>
    cases hn : b.version with
    | error e => rw [hn] at hkb; cases hkb
    | ok n =>
      rw [hm] at hka
      rw [hn] at hkb
      refine ⟨m, n, rfl, rfl, ?_⟩
      rw [← Except.ok.inj h, ← Except.ok.inj hka, ← Except.ok.inj hkb]

theorem newer_of_versions {m n : Int} (hm : a.version = .ok m) (hn : b.version = .ok n) :
    newer a b = .ok (decide (toLex (n, b.atomId) < (toLex (m, a.atomId) : Int ×ₗ String))) := by
  rw [newer, Atom.summaryVersionKey, Atom.summaryVersionKey, hm, hn]
  rfl

theorem newer_sameTip {a' b' : Atom} (ha : SameTip a' a) (hb : SameTip b' b) :
    newer a' b' = newer a b := by
  rw [newer, newer, Atom.summaryVersionKey, Atom.summaryVersionKey, Atom.summaryVersionKey,
    Atom.summaryVersionKey, Atom.version, Atom.version, Atom.version, Atom.version, ha.metadata,
    hb.metadata, ha.atomId, hb.atomId]

theorem newer_trans (hab : newer a b = .ok true) (hbc : newer b c = .ok true) :
    newer a c = .ok true := by
  obtain ⟨m, n, hm, hn, hv⟩ := newer_eq_ok hab
  obtain ⟨n', k, hn', hk, hv'⟩ := newer_eq_ok hbc
  obtain rfl := Except.ok.inj (hn.symm.trans hn')
  rw [newer_of_versions hm hk]
  have hlt := lt_trans (of_decide_eq_true hv'.symm) (of_decide_eq_true hv.symm)
  rw [decide_eq_true hlt]

theorem newer_asymm (hab : newer a b = .ok true) : newer b a ≠ .ok true := by
  intro hba
  obtain ⟨m, n, hm, hn, hv⟩ := newer_eq_ok (newer_trans hab hba)
  obtain rfl := Except.ok.inj (hm.symm.trans hn)
  exact absurd (of_decide_eq_true hv.symm) (lt_irrefl _)

/-- Rows with other ids compare one way or the other. -/
theorem newer_of_not_newer (hab : newer a b = .ok false) (hid : a.atomId ≠ b.atomId) :
    newer b a = .ok true := by
  obtain ⟨m, n, hm, hn, hv⟩ := newer_eq_ok hab
  rw [newer_of_versions hn hm]
  have hle := not_lt.mp (of_decide_eq_false hv.symm)
  have hne : (toLex (m, a.atomId) : Int ×ₗ String) ≠ toLex (n, b.atomId) :=
    fun heq => hid (congrArg Prod.snd (toLex.injective heq))
  rw [decide_eq_true (lt_of_le_of_ne hle hne)]

theorem newer_readable {v w : Bool} (hca : newer c a = .ok v) (hcb : newer c b = .ok w) :
    ∃ u, newer a b = .ok u := by
  obtain ⟨-, m, -, hm, -⟩ := newer_eq_ok hca
  obtain ⟨-, n, -, hn, -⟩ := newer_eq_ok hcb
  exact ⟨_, newer_of_versions hm hn⟩

end Newer

section Tips

variable [PyCoerce]

/-- The row is the newest of its key. -/
def Newest (rows : List Atom) (key : TipKey) (a : Atom) : Prop :=
  a ∈ rows ∧ a.tipKey = some key ∧
    ∀ b ∈ rows, b.tipKey = some key → b ≠ a → newer a b = .ok true

/-- The index maps each key of a row to its newest row, and no other key. -/
structure TipsExact (rows : List Atom) (ladder : Dict TipKey String) : Prop where
  newest : ∀ key id, ladder.get? key = some id → ∃ a, Newest rows key a ∧ a.atomId = id
  covers : ∀ a ∈ rows, ∀ key, a.tipKey = some key → ∃ id, ladder.get? key = some id

variable {rows : List Atom} {ladder ladder' : Dict TipKey String}

theorem Newest.unique {key : TipKey} {a b : Atom} (ha : Newest rows key a)
    (hb : Newest rows key b) : a = b := by
  by_contra hne
  have hab := ha.2.2 b hb.1 hb.2.1 (Ne.symm hne)
  exact newer_asymm hab (hb.2.2 a ha.1 ha.2.1 hne)

/-- There is one such index. -/
theorem TipsExact.same (h : TipsExact rows ladder) (h' : TipsExact rows ladder') :
    ladder.Same ladder' := by
  intro key
  cases hid : ladder.get? key with
  | none =>
    cases hid' : ladder'.get? key with
    | none => rfl
    | some id =>
      obtain ⟨a, ⟨hmem, hkey, -⟩, -⟩ := h'.newest key id hid'
      obtain ⟨id', hsome⟩ := h.covers a hmem key hkey
      rw [hid] at hsome
      cases hsome
  | some id =>
    obtain ⟨a, ha, rfl⟩ := h.newest key id hid
    obtain ⟨id', hsome⟩ := h'.covers a ha.1 key ha.2.1
    obtain ⟨b, hb, rfl⟩ := h'.newest key id' hsome
    rw [hsome, hb.unique ha]

end Tips

section Rebuild

variable [PyCoerce]

/-- The best rows of a rebuild so far. -/
structure BestSoFar (rows : List Atom) (best : Dict TipKey Atom) : Prop where
  newest : ∀ key a, best.get? key = some a → Newest rows key a
  covers : ∀ a ∈ rows, ∀ key, a.tipKey = some key → ∃ b, best.get? key = some b

variable {rows : List Atom} {best best' : Dict TipKey Atom} {a : Atom}

theorem BestSoFar.step (h : BestSoFar rows best) (hfresh : ∀ b ∈ rows, b.atomId ≠ a.atomId)
    (hstep : bestStep best a = .ok best') : BestSoFar (rows ++ [a]) best' := by
  have hnewest {key : TipKey} {c : Atom} (hc : Newest rows key c)
      (ha : a.tipKey = some key → newer c a = .ok true) : Newest (rows ++ [a]) key c := by
    refine ⟨List.mem_append_left _ hc.1, hc.2.1, fun b hb hkey hne => ?_⟩
    obtain hb | hb := List.mem_append.mp hb
    · exact hc.2.2 b hb hkey hne
    · obtain rfl := List.mem_singleton.mp hb
      exact ha hkey
  have hmem : a ∈ rows ++ [a] := List.mem_append_right _ (List.mem_singleton_self a)
  rw [bestStep] at hstep
  cases hkey : a.tipKey with
  | none =>
    simp only [hkey] at hstep
    obtain rfl := Except.ok.inj hstep
    refine ⟨fun key c hc => hnewest (h.newest key c hc) fun hsome => ?_, fun b hb key hb' => ?_⟩
    · rw [hkey] at hsome
      cases hsome
    · obtain hb | hb := List.mem_append.mp hb
      · exact h.covers b hb key hb'
      · obtain rfl := List.mem_singleton.mp hb
        rw [hkey] at hb'
        cases hb'
  | some k =>
    simp only [hkey] at hstep
    have hset (hbeats : ∀ b ∈ rows, b.tipKey = some k → newer a b = .ok true) :
        BestSoFar (rows ++ [a]) (best.set k a) := by
      refine ⟨fun key c hc => ?_, fun b hb key hb' => ?_⟩
      · rw [Dict.get?_set] at hc
        split_ifs at hc with hsame
        · obtain rfl := Option.some.inj hc
          subst hsame
          refine ⟨hmem, hkey, fun b hb hbkey hne => ?_⟩
          obtain hb | hb := List.mem_append.mp hb
          · exact hbeats b hb hbkey
          · exact absurd (List.mem_singleton.mp hb) hne
        · refine hnewest (h.newest key c hc) fun hsome => ?_
          exact absurd (Option.some.inj (hkey.symm.trans hsome)) hsame
      · by_cases hsame : k = key
        · subst hsame
          exact ⟨a, Dict.get?_set_self best k a⟩
        · obtain hb | hb := List.mem_append.mp hb
          · obtain ⟨c, hc⟩ := h.covers b hb key hb'
            exact ⟨c, (Dict.get?_set_ne best a hsame).trans hc⟩
          · obtain rfl := List.mem_singleton.mp hb
            exact absurd (Option.some.inj (hkey.symm.trans hb')) hsame
    cases hcur : best.get? k with
    | none =>
      simp only [hcur] at hstep
      obtain rfl := Except.ok.inj hstep
      refine hset fun b hb hbkey => ?_
      obtain ⟨c, hc⟩ := h.covers b hb k hbkey
      rw [hcur] at hc
      cases hc
    | some cur =>
      simp only [hcur] at hstep
      obtain ⟨v, hv, hstep⟩ := except_bind_ok hstep
      have hnew := h.newest k cur hcur
      cases v with
      | true =>
        obtain rfl := Except.ok.inj hstep
        refine hset fun b hb hbkey => ?_
        by_cases hself : b = cur
        · rw [hself]
          exact hv
        · exact newer_trans hv (hnew.2.2 b hb hbkey hself)
      | false =>
        obtain rfl := Except.ok.inj hstep
        have hback := newer_of_not_newer hv (Ne.symm (hfresh cur hnew.1))
        refine ⟨fun key c hc => hnewest (h.newest key c hc) fun hsome => ?_, fun b hb key hb' => ?_⟩
        · obtain rfl := Option.some.inj (hkey.symm.trans hsome)
          rw [hcur] at hc
          rwa [← Option.some.inj hc]
        · obtain hb | hb := List.mem_append.mp hb
          · exact h.covers b hb key hb'
          · obtain rfl := List.mem_singleton.mp hb
            obtain rfl := Option.some.inj (hkey.symm.trans hb')
            exact ⟨cur, hcur⟩

/-- Rows can be compared when they share a key. -/
def Comparable (rows : List Atom) : Prop :=
  ∀ a ∈ rows, ∀ b ∈ rows, ∀ key, a.tipKey = some key → b.tipKey = some key → a ≠ b →
    ∃ v, newer a b = .ok v

theorem TipsExact.comparable {ladder : Dict TipKey String} (h : TipsExact rows ladder) :
    Comparable rows := by
  intro a ha b hb key hakey hbkey hne
  obtain ⟨id, hid⟩ := h.covers a ha key hakey
  obtain ⟨c, hc, -⟩ := h.newest key id hid
  by_cases hac : a = c
  · subst hac
    exact ⟨true, hc.2.2 b hb hbkey (Ne.symm hne)⟩
  · have hca := hc.2.2 a ha hakey hac
    by_cases hbc : b = c
    · subst hbc
      obtain ⟨m, n, hm, hn, -⟩ := newer_eq_ok hca
      exact ⟨_, newer_of_versions hn hm⟩
    · exact newer_readable hca (hc.2.2 b hb hbkey hbc)

omit [PyCoerce] in
theorem fresh_of_nodup {pending : List Atom}
    (hids : ((rows ++ a :: pending).map Atom.atomId).Nodup) : ∀ b ∈ rows, b.atomId ≠ a.atomId := by
  intro b hb
  rw [List.map_append, List.nodup_append] at hids
  exact hids.2.2 _ (List.mem_map_of_mem hb) _ (List.mem_map_of_mem List.mem_cons_self)

theorem BestSoFar.foldlM {pending : List Atom} (h : BestSoFar rows best)
    (hids : ((rows ++ pending).map Atom.atomId).Nodup)
    (hfold : pending.foldlM bestStep best = .ok best') : BestSoFar (rows ++ pending) best' := by
  induction pending generalizing rows best with
  | nil =>
    obtain rfl := Except.ok.inj hfold
    rwa [List.append_nil]
  | cons a pending ih =>
    rw [List.foldlM_cons] at hfold
    obtain ⟨next, hnext, hfold⟩ := except_bind_ok hfold
    have hfresh := fresh_of_nodup hids
    have hsplit : rows ++ a :: pending = rows ++ [a] ++ pending := by
      rw [List.append_assoc, List.singleton_append]
    rw [hsplit] at hids ⊢
    exact ih (h.step hfresh hnext) hids hfold

theorem bestSoFar_empty : BestSoFar [] .empty :=
  ⟨fun _ _ h => (nomatch h), fun _ h => absurd h List.not_mem_nil⟩

/-- Comparable rows are rebuilt without an error. -/
theorem foldlM_bestStep_ok {pending : List Atom} (h : BestSoFar rows best)
    (hids : ((rows ++ pending).map Atom.atomId).Nodup) (hcompare : Comparable (rows ++ pending)) :
    ∃ best', pending.foldlM bestStep best = .ok best' := by
  induction pending generalizing rows best with
  | nil => exact ⟨best, rfl⟩
  | cons a pending ih =>
    have hfresh := fresh_of_nodup hids
    obtain ⟨next, hnext⟩ : ∃ next, bestStep best a = .ok next := by
      rw [bestStep]
      cases hkey : a.tipKey with
      | none => exact ⟨_, rfl⟩
      | some key =>
        dsimp only
        cases hcur : best.get? key with
        | none => exact ⟨_, rfl⟩
        | some cur =>
          have hnew := h.newest key cur hcur
          obtain ⟨v, hv⟩ := hcompare a (List.mem_append_right _ List.mem_cons_self) cur
            (List.mem_append_left _ hnew.1) key hkey hnew.2.1
            fun heq => hfresh cur hnew.1 (congrArg Atom.atomId heq.symm)
          dsimp only
          rw [hv]
          cases v <;> exact ⟨_, rfl⟩
    have hstep := h.step hfresh hnext
    have hsplit : rows ++ a :: pending = rows ++ [a] ++ pending := by
      rw [List.append_assoc, List.singleton_append]
    rw [hsplit] at hids hcompare
    obtain ⟨best', hbest'⟩ := ih hstep hids hcompare
    refine ⟨best', ?_⟩
    rw [List.foldlM_cons, hnext]
    exact hbest'

omit [PyCoerce] in
theorem get?_ids (best : Dict TipKey Atom) (key : TipKey) :
    (Dict.ofList (best.items.map fun p => (p.1, p.2.atomId))).get? key =
      (best.get? key).map Atom.atomId := by
  have hkeys : ((best.items.map fun p => (p.1, p.2.atomId)).map Prod.fst).Nodup := by
    rw [List.map_map]
    exact best.nodup
  rw [Dict.ofList_items ⟨best.items.map fun p => (p.1, p.2.atomId), hkeys⟩]
  exact Dict.findItem_map Atom.atomId best.items key

theorem BestSoFar.tipsExact (h : BestSoFar rows best) :
    TipsExact rows (Dict.ofList (best.items.map fun p => (p.1, p.2.atomId))) := by
  refine ⟨fun key id hid => ?_, fun a ha key hkey => ?_⟩
  · rw [get?_ids] at hid
    obtain ⟨a, ha, rfl⟩ := Option.map_eq_some_iff.mp hid
    exact ⟨a, h.newest key a ha, rfl⟩
  · obtain ⟨b, hb⟩ := h.covers a ha key hkey
    exact ⟨b.atomId, by rw [get?_ids, hb]; rfl⟩

/-- A rebuild that does not raise is exact. -/
theorem tipsExact_rebuild {byId : Dict String Atom} {ladder : Dict TipKey String}
    (hids : (byId.values.map Atom.atomId).Nodup) (h : rebuildLadder byId = .ok ladder) :
    TipsExact byId.values ladder := by
  obtain ⟨best, hbest, h⟩ := except_bind_ok h
  obtain rfl := Except.ok.inj h
  exact (bestSoFar_empty.foldlM hids hbest).tipsExact

theorem rebuildLadder_ok {byId : Dict String Atom}
    (hids : (byId.values.map Atom.atomId).Nodup) (hcompare : Comparable byId.values) :
    ∃ ladder, rebuildLadder byId = .ok ladder := by
  obtain ⟨best, hbest⟩ : ∃ best, byId.values.foldlM bestStep .empty = .ok best :=
    foldlM_bestStep_ok bestSoFar_empty hids hcompare
  refine ⟨.ofList (best.items.map fun p => (p.1, p.2.atomId)), ?_⟩
  rw [rebuildLadder, hbest]
  rfl

end Rebuild

section Puts

variable [PyCoerce] {s : JsonlMemoryStore} {p : Atom}

/-- The rows of a key that an atom leaves or takes over as its tip. -/
structure PutFits (s : JsonlMemoryStore) (p : Atom) : Prop where
  leaves : ∀ old key, s.byId.get? p.atomId = some old → old.tipKey = some key →
    s.ladder.get? key = some p.atomId → ∀ b ∈ s.byId.values, b ≠ old → b.tipKey = some key →
      p.tipKey = some key ∧ newer p b = .ok true
  readable : ∀ key, p.tipKey = some key → ∀ b ∈ s.byId.values, b.atomId ≠ p.atomId →
    b.tipKey = some key → ∃ v, newer p b = .ok v

omit [PyCoerce] in
theorem mem_replaced (hs : Indexed s) (b : Atom) :
    b ∈ (replaced p s).byId.values ↔ b = p ∨ b ∈ s.byId.values ∧ b.atomId ≠ p.atomId := by
  have hkeyed := (hs.replaced p)
  rw [hkeyed.mem_values, hs.mem_values]
  show (s.byId.set p.atomId p).get? b.atomId = some b ↔ _
  rw [Dict.get?_set]
  by_cases hid : p.atomId = b.atomId
  · rw [if_pos hid]
    constructor
    · intro h
      exact .inl (Option.some.inj h).symm
    · rintro (rfl | ⟨-, hne⟩)
      · rfl
      · exact absurd hid.symm hne
  · rw [if_neg hid]
    constructor
    · intro h
      exact .inr ⟨h, Ne.symm hid⟩
    · rintro (rfl | ⟨h, -⟩)
      · exact absurd rfl hid
      · exact h

/-- A put that fits keeps the index exact. -/
theorem tipsExact_indexPut (hs : Indexed s) (h : TipsExact s.byId.values s.ladder)
    (hfits : PutFits s p) :
    TipsExact (after (indexPut p s)).byId.values (after (indexPut p s)).ladder := by
  have hstill {key : TipKey} {a : Atom} (ha : Newest s.byId.values key a)
      (hid : a.atomId ≠ p.atomId) (hbeats : p.tipKey = some key → newer a p = .ok true) :
      Newest (replaced p s).byId.values key a := by
    refine ⟨(mem_replaced hs a).mpr (.inr ⟨ha.1, hid⟩), ha.2.1, fun b hb hkey hne => ?_⟩
    obtain rfl | ⟨hb, -⟩ := (mem_replaced hs b).mp hb
    · exact hbeats hkey
    · exact ha.2.2 b hb hkey hne
  have hkeeps {key : TipKey} {id : String} (hkey : p.tipKey ≠ some key)
      (hid : (replaced p s).ladder.get? key = some id) :
      ∃ a, Newest (replaced p s).byId.values key a ∧ a.atomId = id := by
    obtain ⟨hlive, hne⟩ := live_dropTip hs p.atomId key id hid
    obtain ⟨a, ha, rfl⟩ := h.newest key id hlive
    exact ⟨a, hstill ha hne fun hsome => absurd hsome hkey, rfl⟩
  have hcovers {key : TipKey} {a : Atom} (hkey : p.tipKey ≠ some key)
      (ha : a ∈ (replaced p s).byId.values) (hakey : a.tipKey = some key) :
      ∃ id, (replaced p s).ladder.get? key = some id := by
    obtain rfl | ⟨hmem, hid⟩ := (mem_replaced hs a).mp ha
    · exact absurd hakey hkey
    obtain ⟨id, hsome⟩ := h.covers a hmem key hakey
    refine ⟨id, ?_⟩
    rw [show (replaced p s).ladder = dropTip (s.byId.get? p.atomId) s.ladder from rfl, get?_dropTip,
      if_neg, hsome]
    rintro ⟨old, hold, holdKey, htip⟩
    rw [hs.keyed p.atomId old hold] at htip
    have hne : a ≠ old := by
      rintro rfl
      exact hid (hs.keyed p.atomId a hold)
    exact hkey (hfits.leaves old key hold holdKey htip a hmem hne hakey).1
  rw [indexPut_eq, raiseTip]
  cases hkey : p.tipKey with
  | none =>
    have hno (key : TipKey) : p.tipKey ≠ some key := by
      rw [hkey]
      exact (Option.some_ne_none key).symm
    exact ⟨fun key id hid => hkeeps (hno key) hid, fun a ha key hakey => hcovers (hno key) ha hakey⟩
  | some key =>
    have hmoved (hbeats : ∀ b ∈ s.byId.values, b.atomId ≠ p.atomId → b.tipKey = some key →
        newer p b = .ok true) :
        TipsExact (replaced p s).byId.values ((replaced p s).ladder.set key p.atomId) := by
      refine ⟨fun key' id hid => ?_, fun a ha key' hakey => ?_⟩
      · rw [Dict.get?_set] at hid
        split_ifs at hid with hsame
        · obtain rfl := Option.some.inj hid
          subst hsame
          refine ⟨p, ⟨(mem_replaced hs p).mpr (.inl rfl), hkey, fun b hb hbkey hne => ?_⟩, rfl⟩
          obtain hself | ⟨hmem, hbid⟩ := (mem_replaced hs b).mp hb
          · exact absurd hself hne
          · exact hbeats b hmem hbid hbkey
        · refine hkeeps ?_ hid
          rw [hkey]
          exact fun heq => hsame (Option.some.inj heq)
      · by_cases hsame : key = key'
        · subst hsame
          exact ⟨p.atomId, Dict.get?_set_self _ _ _⟩
        · have hno : p.tipKey ≠ some key' := by
            rw [hkey]
            exact fun heq => hsame (Option.some.inj heq)
          obtain ⟨id, hid⟩ := hcovers hno ha hakey
          exact ⟨id, (Dict.get?_set_ne _ _ hsame).trans hid⟩
    dsimp only
    cases hcur : (replaced p s).ladder.get? key with
    | none =>
      refine hmoved fun b hmem hbid hbkey => ?_
      obtain ⟨id, hsome⟩ := h.covers b hmem key hbkey
      rw [show (replaced p s).ladder = dropTip (s.byId.get? p.atomId) s.ladder from rfl,
        get?_dropTip] at hcur
      split_ifs at hcur with hold
      · obtain ⟨old, hold, holdKey, htip⟩ := hold
        rw [hs.keyed p.atomId old hold] at htip
        have hne : b ≠ old := by
          rintro rfl
          exact hbid (hs.keyed p.atomId b hold)
        exact (hfits.leaves old key hold holdKey htip b hmem hne hbkey).2
      · rw [hsome] at hcur
        cases hcur
    | some curId =>
      obtain ⟨hlive, hne⟩ := live_dropTip hs p.atomId key curId hcur
      obtain ⟨cur, hnew, rfl⟩ := h.newest key curId hlive
      have hrow : (replaced p s).byId.get? cur.atomId = some cur :=
        (Dict.get?_set_ne s.byId p (Ne.symm hne)).trans ((hs.mem_values cur).mp hnew.1)
      dsimp only
      rw [if_neg hne, hrow]
      dsimp only
      obtain ⟨v, hv⟩ := hfits.readable key hkey cur hnew.1 hne hnew.2.1
      rw [hv]
      cases v with
      | true =>
        refine hmoved fun b hmem hbid hbkey => ?_
        by_cases hself : b = cur
        · rw [hself]
          exact hv
        · exact newer_trans hv (hnew.2.2 b hmem hbkey hself)
      | false =>
        have hback := newer_of_not_newer hv (Ne.symm hne)
        refine ⟨fun key' id hid => ?_, fun a ha key' hakey => ?_⟩
        · by_cases hsame : key = key'
          · subst hsame
            obtain rfl := Option.some.inj (hcur.symm.trans hid)
            exact ⟨cur, hstill hnew hne fun _ => hback, rfl⟩
          · refine hkeeps ?_ hid
            rw [hkey]
            exact fun heq => hsame (Option.some.inj heq)
        · by_cases hsame : key = key'
          · subst hsame
            exact ⟨cur.atomId, hcur⟩
          · refine hcovers ?_ ha hakey
            rw [hkey]
            exact fun heq => hsame (Option.some.inj heq)

end Puts

section Runs

variable [PyCoerce] {s : JsonlMemoryStore}

/-- No other row shares a key with the tip that is deleted. -/
def DeleteFits (s : JsonlMemoryStore) (atomId : String) : Prop :=
  ∀ old key, s.byId.get? atomId = some old → old.tipKey = some key →
    s.ladder.get? key = some atomId → ∀ b ∈ s.byId.values, b.tipKey = some key → b = old

/-- The store objects of the runs whose puts and deletes fit, on directories of texts: no put or
delete unlinks `atoms.jsonl`, and a row that is written again has its timestamps as a put writes
them. -/
inductive Fitting : JsonlMemoryStore → Prop
  | opened (settings : MemorySettings) (d : MemoryDir) (s : JsonlMemoryStore) (hd : d.AllText)
      (h : openStore settings d = .ok s) : Fitting s
  | reopened (s t : JsonlMemoryStore) (hs : Fitting s) (settings : MemorySettings)
      (h : openStore settings s.dir = .ok t) : Fitting t
  | put (s : JsonlMemoryStore) (a : Atom) (hs : Fitting s)
      (hfits : ∀ p, prepareForPut s.settings a = .ok p → PutFits s p) (hspares : SparesAtoms s a) :
      Fitting (after (putAtom a s))
  | linked (s : JsonlMemoryStore) (atomId : String) (prev next : LinkChange) (hs : Fitting s)
      (hstamps : ∀ a, s.byId.get? atomId = some a → StampsFixed a) :
      Fitting (after (updateLinks atomId prev next s))
  | deleted (s : JsonlMemoryStore) (atomId : String) (hs : Fitting s)
      (hfits : DeleteFits s atomId) (hspares : ∀ old, s.byId.get? atomId = some old →
        blobPath s.dir.root old.contentRef ≠ some atomsPath) : Fitting (after (deleteAtom atomId s))
  | compacted (s : JsonlMemoryStore) (hs : Fitting s)
      (hstamps : ∀ a ∈ s.byId.values, StampsFixed a) : Fitting s.compact

theorem Fitting.reached (h : Fitting s) : Reached s := by
  induction h with
  | opened settings d s hd h => exact .opened settings d s h
  | reopened s t hs settings h ih => exact .opened settings s.dir t h
  | put s a hs hfits hspares ih => exact .put s a ih
  | linked s atomId prev next hs hstamps ih => exact .linked s atomId prev next ih
  | deleted s atomId hs hfits hspares ih => exact .deleted s atomId ih
  | compacted s hs hstamps ih => exact .compacted s ih

theorem Fitting.onDisk (h : Fitting s) : OnDisk s := by
  induction h with
  | opened settings d s hd h => exact .opened hd h
  | reopened s t hs settings h ih => exact .opened ih.text h
  | put s a hs hfits hspares ih => exact ih.putAtom hspares
  | linked s atomId prev next hs hstamps ih => exact ih.updateLinks prev next hstamps
  | deleted s atomId hs hfits hspares ih => exact ih.deleteAtom hs.reached.indexed hspares
  | compacted s hs hstamps ih => exact ih.compact hs.reached.indexed hstamps

theorem tipsExact_openStore {settings : MemorySettings} {d : MemoryDir}
    (h : openStore settings d = .ok s) : TipsExact s.byId.values s.ladder := by
  have hids := atomIds_nodup (indexed_openStore settings d s h).keyed
  rw [openStore] at h
  cases hdecode : decodeUtf8 d.atomsFile.bytes with
  | none => rw [hdecode] at h; cases h
  | some cs =>
    rw [hdecode] at h
    obtain ⟨byId, -, h⟩ := except_bind_ok h
    obtain ⟨ladder, hladder, h⟩ := except_bind_ok h
    obtain rfl := Except.ok.inj h
    exact tipsExact_rebuild hids hladder

/-- New links leave the key and the version of a row. -/
theorem newer_applied (a b : Atom) (prev next : LinkChange) :
    newer (LinkChange.applied a prev next) b = newer a b := rfl

theorem putFits_applied (hs : Indexed s) (h : TipsExact s.byId.values s.ladder) {a : Atom}
    (ha : s.byId.get? a.atomId = some a) (prev next : LinkChange) :
    PutFits s (LinkChange.applied a prev next) := by
  have hmem := (hs.mem_values a).mpr ha
  refine ⟨fun old key hold hkey htip b hb hne hbkey => ?_, fun key hkey b hb hid hbkey => ?_⟩
  · have hsame : a = old := Option.some.inj (ha.symm.trans hold)
    subst hsame
    obtain ⟨c, hc, hcid⟩ := h.newest key _ htip
    have hca : c = a := by
      have hrow := (hs.mem_values c).mp hc.1
      rw [hcid] at hrow
      exact Option.some.inj (hrow.symm.trans ha)
    subst hca
    exact ⟨hkey, hc.2.2 b hb hbkey hne⟩
  · rw [newer_applied]
    have hne : a ≠ b := by
      rintro rfl
      exact hid rfl
    exact h.comparable a hmem b hb key hkey hbkey hne

theorem tipsExact_deleteAtom (hs : Indexed s) (h : TipsExact s.byId.values s.ladder)
    {atomId : String} (hfits : DeleteFits s atomId) :
    TipsExact (after (deleteAtom atomId s)).byId.values (after (deleteAtom atomId s)).ladder := by
  have hafter := hs.deleteAtom atomId
  rw [JsonlMemoryStore.deleteAtom] at hafter ⊢
  cases hold : s.byId.get? atomId with
  | none => exact h
  | some old =>
    rw [hold] at hafter
    have hmem (b : Atom) : b ∈ (s.byId.pop atomId).values ↔
        b ∈ s.byId.values ∧ b.atomId ≠ atomId := by
      have hiff := hafter.mem_values b
      refine hiff.trans ?_
      show (s.byId.pop atomId).get? b.atomId = some b ↔ _
      rw [Dict.get?_pop, hs.mem_values]
      by_cases hid : atomId = b.atomId
      · rw [if_pos hid]
        exact ⟨fun hnone => absurd hnone.symm (Option.some_ne_none b),
          fun hboth => absurd hid.symm hboth.2⟩
      · rw [if_neg hid]
        exact ⟨fun hrow => ⟨hrow, Ne.symm hid⟩, And.left⟩
    show TipsExact (s.byId.pop atomId).values (dropTip (some old) s.ladder)
    rw [← hold]
    refine ⟨fun key id hid => ?_, fun a ha key hakey => ?_⟩
    · obtain ⟨hlive, hne⟩ := live_dropTip hs atomId key id hid
      obtain ⟨a, ha, rfl⟩ := h.newest key id hlive
      exact ⟨a, ⟨(hmem a).mpr ⟨ha.1, hne⟩, ha.2.1, fun b hb hbkey hbne =>
        ha.2.2 b ((hmem b).mp hb).1 hbkey hbne⟩, rfl⟩
    · obtain ⟨harow, haid⟩ := (hmem a).mp ha
      obtain ⟨id, hsome⟩ := h.covers a harow key hakey
      refine ⟨id, ?_⟩
      rw [get?_dropTip, if_neg, hsome]
      rintro ⟨old', hold', holdKey, htip⟩
      have hself := hs.keyed atomId old' hold'
      rw [hself] at htip
      have heq := hfits old' key hold' holdKey htip a harow hakey
      rw [heq] at haid
      exact haid hself

/-- In a run whose puts and deletes fit, the index is exact in every state. -/
theorem Fitting.tipsExact (h : Fitting s) : TipsExact s.byId.values s.ladder := by
  induction h with
  | opened settings d s hd h => exact tipsExact_openStore h
  | reopened s t hs settings h ih => exact tipsExact_openStore h
  | put s a hs hfits hspares ih =>
    obtain ⟨d, hrun⟩ := putAtom_run s a
    have hd : Indexed { s with dir := d } :=
      SameIndex.indexed (s := s) ⟨rfl, rfl, rfl⟩ hs.reached.indexed
    rw [hrun]
    cases hp : prepareForPut s.settings a with
    | error e => exact ih
    | ok p =>
      dsimp only
      rw [after_bind_pure]
      have hfitsPut := hfits p hp
      exact tipsExact_indexPut hd ih ⟨hfitsPut.leaves, hfitsPut.readable⟩
  | linked s atomId prev next hs hstamps ih =>
    rw [updateLinks_eq]
    cases hrow : s.byId.get? atomId with
    | none => exact ih
    | some a =>
      dsimp only
      split_ifs
      · exact ih
      · have hself := hs.reached.indexed.keyed atomId a hrow
        have ha : s.byId.get? a.atomId = some a := by rw [hself, hrow]
        have hfits := putFits_applied hs.reached.indexed ih ha prev next
        let p := LinkChange.applied a prev next
        let t : JsonlMemoryStore := { s with dir := s.dir.appendAtomRow (rowForDisk p) }
        have ht : Indexed t := SameIndex.indexed (s := s) ⟨rfl, rfl, rfl⟩ hs.reached.indexed
        let put : Py JsonlMemoryStore Atom := JsonlMemoryStore.indexPut p >>= fun _ => pure p
        show TipsExact (after (put t)).byId.values (after (put t)).ladder
        rw [after_bind_pure]
        exact tipsExact_indexPut ht ih ⟨hfits.leaves, hfits.readable⟩
  | deleted s atomId hs hfits hspares ih => exact tipsExact_deleteAtom hs.reached.indexed ih hfits
  | compacted s hs hstamps ih => exact ih

theorem TipsExact.onDisk {rows live : Dict String Atom} {ladder : Dict TipKey String}
    (hlive : ∀ id a, live.get? id = some a → a.atomId = id) (hsame : SameTips rows live)
    (h : TipsExact live.values ladder) : TipsExact rows.values ladder := by
  have hrow {a : Atom} (ha : a ∈ live.values) : ∃ b ∈ rows.values, SameTip b a := by
    obtain ⟨b, hb, htip⟩ := hsame.onDisk a.atomId a ((mem_atoms hlive a).mp ha)
    exact ⟨b, (Dict.mem_values rows b).mpr ⟨_, hb⟩, htip⟩
  have hatom {b : Atom} (hb : b ∈ rows.values) :
      ∃ a, live.get? b.atomId = some a ∧ a ∈ live.values ∧ SameTip b a ∧
        rows.get? b.atomId = some b := by
    obtain ⟨id, hid⟩ := (Dict.mem_values rows b).mp hb
    obtain ⟨a, ha, htip⟩ := hsame.isLive id b hid
    have hself : b.atomId = id := htip.atomId.trans (hlive id a ha)
    rw [hself]
    exact ⟨a, ha, (Dict.mem_values live a).mpr ⟨id, ha⟩, htip, hid⟩
  refine ⟨fun key id hid => ?_, fun b hb key hkey => ?_⟩
  · obtain ⟨a, ⟨hmem, hkey, hnewest⟩, rfl⟩ := h.newest key id hid
    obtain ⟨b, hb, htip⟩ := hrow hmem
    refine ⟨b, ⟨hb, htip.tipKey.trans hkey, fun c hc hckey hne => ?_⟩, htip.atomId⟩
    obtain ⟨x, hx, hxmem, hcx, hcrow⟩ := hatom hc
    obtain ⟨-, -, -, -, hbrow⟩ := hatom hb
    have hother : x ≠ a := by
      rintro rfl
      rw [htip.atomId, ← hcx.atomId, hcrow] at hbrow
      exact hne (Option.some.inj hbrow)
    rw [newer_sameTip htip hcx]
    exact hnewest x hxmem (hcx.tipKey.symm.trans hckey) hother
  · obtain ⟨a, -, hmem, htip, -⟩ := hatom hb
    exact h.covers a hmem key (htip.tipKey.symm.trans hkey)

/-- The directory reopens, with the tips of the live atoms. -/
theorem openStore_onDisk (h : OnDisk s) (hs : Indexed s) (htips : TipsExact s.byId.values s.ladder)
    (settings : MemorySettings) :
    ∃ t, openStore settings s.dir = .ok t ∧ t.ladder.Same s.ladder := by
  obtain ⟨rows, hrows, hsame⟩ := h.rows
  have hkeyed : ∀ id b, rows.get? id = some b → b.atomId = id := by
    intro id b hb
    obtain ⟨a, ha, htip⟩ := hsame.isLive id b hb
    exact htip.atomId.trans (hs.keyed id a ha)
  have hdisk := htips.onDisk hs.keyed hsame
  obtain ⟨ladder, hladder⟩ := rebuildLadder_ok (atomIds_nodup hkeyed) hdisk.comparable
  have hkept : keptRows s.dir = .ok rows := by
    rw [keptRows, hrows]
    show (rebuildLadder rows >>= fun _ => Except.ok rows) = _
    rw [hladder]
    rfl
  obtain ⟨rows', loaded, hkept', hopen, hb⟩ | ⟨err, herr, -⟩ := openStore_bodied settings h.text
  · obtain rfl := Except.ok.inj (hkept.symm.trans hkept')
    cases ht : openStore settings s.dir with
    | error e =>
      rw [ht] at hopen
      cases hopen
    | ok t =>
      rw [ht] at hopen
      obtain rfl := Except.ok.inj hopen
      have hloaded : SameTips t.byId rows := by
        refine ⟨fun id a ha => ?_, fun id b hrow => ?_⟩
        · rw [hb.get?] at ha
          obtain ⟨b, hrow, rfl⟩ := Option.map_eq_some_iff.mp ha
          exact ⟨b, hrow, sameTip_bodied s.dir b⟩
        · refine ⟨s.dir.bodied b, ?_, sameTip_bodied s.dir b⟩
          rw [hb.get?, hrow]
          rfl
      exact ⟨t, rfl, (tipsExact_openStore ht).same (hdisk.onDisk hkeyed hloaded)⟩
  · rw [hkept] at herr
    cases herr

/-- In a run whose puts and deletes fit, the index maps the key of each live summary to the newest
summary of that key and no other key, and a reopen of the directory builds the same index. -/
theorem ladder_tips_exact (h : Fitting s) :
    TipsExact s.byId.values s.ladder ∧
      ∃ t, openStore s.settings s.dir = .ok t ∧ t.ladder.Same s.ladder :=
  ⟨h.tipsExact, openStore_onDisk h.onDisk h.reached.indexed h.tipsExact s.settings⟩

/-- The rows behind a put of an atom that is valid. -/
theorem putAtom_rows {a p : Atom} (hp : prepareForPut s.settings a = .ok p) :
    (after (putAtom a s)).byId = s.byId.set p.atomId p ∧
      (after (putAtom a s)).settings = s.settings := by
  obtain ⟨d, hrun⟩ := putAtom_run s a
  rw [hrun, hp]
  dsimp only
  rw [after_bind_pure, indexPut_eq]
  obtain hstay | ⟨key, -, hmove⟩ := raiseTip_run (replaced p { s with dir := d }) p
  · rw [hstay]
    exact ⟨rfl, rfl⟩
  · rw [hmove]
    exact ⟨rfl, rfl⟩

end Runs

section Sample

attribute [local instance] basicCoerce

/-- A summary of the first day. -/
def daySummary (atomId : String) : Atom where
  atomId := atomId
  tStart := isoZ firstInstant
  kind := "summary"
  scale := some "1d"
  windowStart := some (isoZ firstInstant)
  windowEnd := some (isoZ firstInstant)

def dayKey : TipKey := ("1d", isoZ firstInstant)

def emptyStore : JsonlMemoryStore := ⟨defaultMemorySettings, .empty, .empty, ⟨[], .empty⟩⟩

theorem opened_emptyStore : openStore defaultMemorySettings ⟨[], .empty⟩ = .ok emptyStore := by
  have hdecode : decodeUtf8 ((⟨[], .empty⟩ : MemoryDir).atomsFile.bytes) = some [] :=
    decodeUtf8_utf8Encode []
  rw [openStore, hdecode]
  rfl

theorem prepare_daySummary (atomId : String) (h : atomId = "a" ∨ atomId = "b") :
    ∃ p, prepareForPut defaultMemorySettings (daySummary atomId) = .ok p ∧ p.atomId = atomId ∧
      p.tipKey = some dayKey := by
  have hall : ∀ id ∈ ["a", "b"],
      ((prepareForPut defaultMemorySettings (daySummary id)).toOption.map fun p =>
        (p.atomId, p.tipKey)) = some (id, some dayKey) := by
    decide +kernel
  have hid := hall atomId (by simpa using h)
  obtain ⟨p, hp, hpair⟩ := Option.map_eq_some_iff.mp hid
  obtain ⟨hself, hkey⟩ := Prod.mk.inj hpair
  refine ⟨p, ?_, hself, hkey⟩
  cases hprepare : prepareForPut defaultMemorySettings (daySummary atomId) with
  | error e => rw [hprepare] at hp; cases hp
  | ok q =>
    rw [hprepare] at hp
    exact congrArg Except.ok (Option.some.inj hp)

theorem blobPath_inline (root : List String) : blobPath root "inline" = none := rfl

theorem spares_daySummary (s : JsonlMemoryStore) (atomId : String) :
    SparesAtoms s (daySummary atomId) := by
  intro stamped hstamped _
  obtain ⟨tStart, -, h⟩ := except_bind_ok hstamped
  obtain ⟨tEnd, -, h⟩ := except_bind_ok h
  obtain ⟨windowStart, -, h⟩ := except_bind_ok h
  obtain ⟨windowEnd, -, h⟩ := except_bind_ok h
  obtain ⟨sourceBeatTs, -, h⟩ := except_bind_ok h
  rw [← Except.ok.inj h]
  show blobPath s.dir.root "inline" ≠ some atomsPath
  rw [blobPath_inline]
  exact (Option.some_ne_none _).symm

/-- One day with two summaries, linked, and then with the newer one alone. -/
def oneSummary : JsonlMemoryStore := after (putAtom (daySummary "a") emptyStore)

def twoSummaries : JsonlMemoryStore := after (putAtom (daySummary "b") oneSummary)

def linkedSummaries : JsonlMemoryStore := after (updateLinks "b" (.to (some "a")) .unset twoSummaries)

def leftSummary : JsonlMemoryStore := after (deleteAtom "a" linkedSummaries)

theorem oneSummary_rows : ∀ a ∈ oneSummary.byId.values, a.metadata.get? "version" = none := by
  decide +kernel

theorem twoSummaries_fits (p : Atom)
    (h : prepareForPut oneSummary.settings (daySummary "b") = .ok p) : PutFits oneSummary p := by
  have hp : (prepareForPut oneSummary.settings (daySummary "b")).toOption.map
      (fun p => (p.atomId, p.metadata.get? "version")) = some ("b", none) := by
    decide +kernel
  rw [h] at hp
  obtain ⟨hid, hversion⟩ := Prod.mk.inj (Option.some.inj hp)
  refine ⟨fun old key hold => ?_, fun key hkey b hb _ _ => ?_⟩
  · have hnone : oneSummary.byId.get? "b" = none := by decide +kernel
    rw [hid, hnone] at hold
    cases hold
  · have hzero {a : Atom} (ha : a.metadata.get? "version" = none) : a.version = .ok 0 := by
      rw [Atom.version, ha]
    exact ⟨_, newer_of_versions (hzero hversion) (hzero (oneSummary_rows b hb))⟩

theorem twoSummaries_stamps (a : Atom) (ha : twoSummaries.byId.get? "b" = some a) :
    StampsFixed a := by
  obtain ⟨p, hp, hid, -⟩ := prepare_daySummary "b" (.inr rfl)
  have hrow : twoSummaries.byId = oneSummary.byId.set p.atomId p :=
    (putAtom_rows (s := oneSummary) hp).1
  rw [hrow, hid, Dict.get?_set_self] at ha
  rw [← Option.some.inj ha]
  exact (prepared_holdable hp).2

theorem linkedSummaries_rows : linkedSummaries.ladder.get? dayKey = some "b" ∧
    ∀ a ∈ linkedSummaries.byId.values, a.tipKey = some dayKey ∧ a.contentRef = "inline" := by
  decide +kernel

theorem leftSummary_fitting : Fitting leftSummary := by
  have hempty : MemoryDir.AllText ⟨[], .empty⟩ := fun _ _ h => (nomatch h)
  have hone : Fitting oneSummary :=
    .put _ _ (.opened _ _ _ hempty opened_emptyStore)
      (fun _ _ => ⟨fun _ _ hold => (nomatch hold), fun _ _ _ hb => absurd hb List.not_mem_nil⟩)
      (spares_daySummary _ _)
  have hlinked : Fitting linkedSummaries :=
    .linked _ _ _ _ (.put _ _ hone twoSummaries_fits (spares_daySummary _ _)) twoSummaries_stamps
  obtain ⟨htip, hrows⟩ := linkedSummaries_rows
  have hmem {a : Atom} (ha : linkedSummaries.byId.get? "a" = some a) :=
    hrows a ((Dict.mem_values _ a).mpr ⟨"a", ha⟩)
  refine .deleted _ _ hlinked (fun old key hold hkey hladder => ?_) (fun old hold => ?_)
  · rw [(hmem hold).1] at hkey
    rw [← Option.some.inj hkey, htip] at hladder
    exact absurd (Option.some.inj hladder) (by decide)
  · rw [(hmem hold).2, blobPath_inline]
    exact (Option.some_ne_none _).symm

theorem ladder_tips_exact_sample : leftSummary.ladder.get? dayKey = some "b" ∧
    TipsExact leftSummary.byId.values leftSummary.ladder ∧
      ∃ t, openStore leftSummary.settings leftSummary.dir = .ok t ∧
        t.ladder.Same leftSummary.ladder :=
  ⟨by decide +kernel, ladder_tips_exact leftSummary_fitting⟩

/-- Where two summaries share a key, deleting the tip leaves the other without one. -/
theorem deleted_tip_is_not_replaced : ¬∀ [PyCoerce] (s : JsonlMemoryStore), Reached s →
    TipsExact s.byId.values s.ladder := by
  intro hall
  obtain ⟨p, hp, hpId, hpKey⟩ := prepare_daySummary "a" (.inl rfl)
  obtain ⟨q, hq, hqId, hqKey⟩ := prepare_daySummary "b" (.inr rfl)
  have hopened : Reached emptyStore := .opened _ _ _ opened_emptyStore
  obtain ⟨hfirst, hsettings⟩ := putAtom_rows (s := emptyStore) hp
  have hone : Reached (after (putAtom (daySummary "a") emptyStore)) := .put _ _ hopened
  generalize after (putAtom (daySummary "a") emptyStore) = one at hfirst hsettings hone
  have hqOne : prepareForPut one.settings (daySummary "b") = .ok q := by
    rw [hsettings]
    exact hq
  obtain ⟨hsecond, -⟩ := putAtom_rows hqOne
  have htwo : Reached (after (putAtom (daySummary "b") one)) := .put _ _ hone
  generalize after (putAtom (daySummary "b") one) = two at hsecond htwo
  have htips := hall two htwo
  have hqRow : two.byId.get? "b" = some q := by
    rw [hsecond, hqId]
    exact Dict.get?_set_self _ _ _
  have hpRow : two.byId.get? "a" = some p := by
    rw [hsecond, hfirst, hqId, hpId]
    exact (Dict.get?_set_ne _ _ (by decide)).trans (Dict.get?_set_self _ _ _)
  have hqMem : q ∈ two.byId.values := (Dict.mem_values _ _).mpr ⟨"b", hqRow⟩
  obtain ⟨id, hid⟩ := htips.covers q hqMem dayKey hqKey
  obtain ⟨tip, htip, rfl⟩ := htips.newest dayKey id hid
  obtain ⟨k, htipRow⟩ := (Dict.mem_values _ _).mp htip.1
  have hkeyed := htwo.indexed.keyed k tip htipRow
  subst hkeyed
  have hthree := hall _ (.deleted two tip.atomId htwo)
  -- the row that is left
  obtain ⟨other, hotherRow, hotherKey, hne⟩ : ∃ other,
      two.byId.get? other.atomId = some other ∧ other.tipKey = some dayKey ∧
        other.atomId ≠ tip.atomId := by
    by_cases hb : tip.atomId = "b"
    · refine ⟨p, by rw [hpId]; exact hpRow, hpKey, ?_⟩
      rw [hpId, hb]
      decide
    · refine ⟨q, by rw [hqId]; exact hqRow, hqKey, ?_⟩
      rw [hqId]
      exact Ne.symm hb
  rw [JsonlMemoryStore.deleteAtom, htipRow] at hthree
  have hleft : other ∈ (two.byId.pop tip.atomId).values := by
    refine (Dict.mem_values _ _).mpr ⟨other.atomId, ?_⟩
    rw [Dict.get?_pop, if_neg (Ne.symm hne)]
    exact hotherRow
  obtain ⟨id, hlost⟩ := hthree.covers other hleft dayKey hotherKey
  have hdropped : (dropTip (some tip) two.ladder).get? dayKey = some id := hlost
  rw [get?_dropTip, if_pos ⟨tip, rfl, htip.2.1, hid⟩] at hdropped
  cases hdropped

end Sample

end JsonlMemoryStore

end Elyra.Memory
