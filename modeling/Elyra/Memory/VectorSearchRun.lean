import Elyra.Memory.VectorSearchExact

namespace Elyra.Memory

open MemoryEmbeddingIndex

variable {Vec : Type}

theorem lastAccepted_append (sets more : List (EmbeddingSet Vec)) (id : String) :
    lastAccepted (sets ++ more) id = (lastAccepted more id).or (lastAccepted sets id) := by
  rw [lastAccepted, List.filter_append, List.getLast?_append]
  rfl

theorem lastAccepted_single (emb : EmbeddingSet Vec) (id : String) :
    lastAccepted [emb] id = if emb.atomId = id then some emb else none := by
  by_cases h : emb.atomId = id <;> simp [lastAccepted, h]

theorem lastAccepted_cons (emb : EmbeddingSet Vec) (more : List (EmbeddingSet Vec)) (id : String) :
    lastAccepted (emb :: more) id =
      (lastAccepted more id).or (if emb.atomId = id then some emb else none) := by
  rw [← lastAccepted_single, ← lastAccepted_append]
  rfl

namespace MemoryEmbeddingIndex

/-- An index whose buffer agrees with its dict main and its store. -/
def Sound (s : MemoryEmbeddingIndex Vec) : Prop := Coherent s.store s.byId s.fresh.buffer

theorem markReady_sound {store : IndexedStore} {byId : Dict String (EmbeddingSet Vec)}
    {buffer : RecentBuffer Vec} (h : Coherent store byId buffer) (emb : EmbeddingSet Vec)
    (fails : Bool) : Coherent (markReady emb fails store) byId buffer := by
  rw [markReady]
  cases ha : store.getAtom emb.atomId with
  | none => exact h
  | some a =>
    cases hput : store.putAtom (encodedAtom a emb) fails with
    | none =>
      dsimp only
      rw [hput]
      exact h
    | some store' =>
      dsimp only
      rw [hput]
      exact h.putFacts (b := encodedAtom a emb) ha rfl rfl rfl rfl hput

theorem persistRepair_sound {store store' : IndexedStore} {byId : Dict String (EmbeddingSet Vec)}
    {buffer : RecentBuffer Vec} (h : Coherent store byId buffer) {fixed : EmbeddingSet Vec}
    {id : String} {fails : Bool}
    (hpersist : persistRepair fixed (store.getAtom id) fails store = some store') :
    Coherent store' byId buffer := by
  cases ha : store.getAtom id with
  | none =>
    rw [ha] at hpersist
    rw [← Option.some.inj hpersist]
    exact h
  | some a =>
    rw [ha] at hpersist
    exact h.putFacts (b := repairedAtom a fixed) ha rfl rfl rfl rfl hpersist

section Calls

variable [PyCoerce]

theorem Sound.upsert {s : MemoryEmbeddingIndex Vec} (h : s.Sound) (emb : EmbeddingSet Vec)
    (now : String) (fails : Bool) : (upsert emb now fails s).Sound := by
  unfold MemoryEmbeddingIndex.upsert
  by_cases hready : emb.embeddingsAreReady s.requireJoint = true
  · rw [if_neg (by simp [hready])]
    obtain ⟨c, v, hv⟩ := EmbeddingSet.ready_has_vector hready
    obtain ⟨e, he, hentry⟩ := entryFromEmbAndAtom_spec hv (h.dated emb.atomId) now
    dsimp only
    rw [he]
    exact markReady_sound (h.accept hv hentry) emb fails
  · rw [if_pos (by simpa using hready)]
    exact h

/-- A loop of joint copies keeps an index sound and stores its copies, one an atom. -/
theorem Sound.repairLoop {cap : Nat} {now : String} {fails : String → Bool}
    (items : List (String × EmbeddingSet Vec)) (hitems : ∀ p ∈ items, p.2.atomId = p.1)
    (repaired : List (EmbeddingSet Vec)) {s : MemoryEmbeddingIndex Vec} (h : s.Sound) :
    (repairLoop cap now fails items repaired s).1.Sound ∧
      ∃ added, (MemoryEmbeddingIndex.repairLoop cap now fails items repaired s).2 =
          repaired ++ added ∧
        ∀ id, (MemoryEmbeddingIndex.repairLoop cap now fails items repaired s).1.byId.get? id =
          (lastAccepted added id).or (s.byId.get? id) := by
  induction items generalizing repaired s with
  | nil => exact ⟨h, [], by simp [MemoryEmbeddingIndex.repairLoop], fun id => rfl⟩
  | cons p items ih =>
    obtain ⟨atomId, emb⟩ := p
    have hown : emb.atomId = atomId := hitems _ List.mem_cons_self
    have hrest : ∀ p ∈ items, p.2.atomId = p.1 := fun p hp => hitems p (List.mem_cons_of_mem _ hp)
    rw [MemoryEmbeddingIndex.repairLoop]
    by_cases hcap : cap ≤ repaired.length
    · rw [if_pos hcap]
      exact ⟨h, [], by simp, fun id => rfl⟩
    rw [if_neg hcap]
    cases hcopy : emb.jointCopyEmbeddingSet with
    | none => exact ih hrest repaired h
    | some fixed =>
      dsimp only
      cases hpersist : persistRepair fixed (s.store.getAtom atomId) (fails atomId) s.store with
      | none => exact ih hrest repaired h
      | some store =>
        have hfixed : fixed.atomId = atomId :=
          (EmbeddingSet.jointCopyEmbeddingSet_atomId hcopy).trans hown
        obtain ⟨v, hv⟩ := EmbeddingSet.jointCopyEmbeddingSet_joint hcopy
        obtain ⟨e, he, hentry⟩ :=
          entryFromEmbAndAtom_spec (c := .joint) hv (h.dated atomId) now
        dsimp only
        rw [he]
        dsimp only
        rw [← hfixed] at hentry hpersist
        have hnext := persistRepair_sound (h.accept (c := .joint) hv hentry) hpersist
        rw [hfixed] at hnext
        obtain ⟨hsound, added, hadded, hget⟩ := ih hrest (repaired ++ [fixed])
          (s := { s with
            store
            byId := s.byId.set atomId fixed
            fresh := pushEntry (some e) s.fresh }) hnext
        refine ⟨hsound, fixed :: added, ?_, ?_⟩
        · rw [hadded, List.append_assoc]
          rfl
        · intro id
          rw [hget id, lastAccepted_cons]
          show _ = ((lastAccepted added id).or _).or _
          rw [Option.or_assoc]
          congr 1
          rw [Dict.get?_set, hfixed]
          split_ifs <;> rfl

theorem Sound.seedLoop {now : String} (items : List (String × EmbeddingSet Vec)) (n : Nat)
    {s : MemoryEmbeddingIndex Vec} (hitems : ∀ p ∈ items, s.byId.get? p.1 = some p.2)
    (h : s.Sound) :
    (seedLoop now items n s).1.Sound ∧ (MemoryEmbeddingIndex.seedLoop now items n s).1.byId = s.byId := by
  induction items generalizing n s with
  | nil => exact ⟨h, rfl⟩
  | cons p items ih =>
    obtain ⟨atomId, emb⟩ := p
    have hget : s.byId.get? atomId = some emb := hitems _ List.mem_cons_self
    have hown : emb.atomId = atomId := h.keyed atomId emb hget
    obtain ⟨c, v, hv⟩ := h.filled atomId emb hget
    obtain ⟨e, he, hentry⟩ := entryFromEmbAndAtom_spec hv (h.dated atomId) now
    rw [MemoryEmbeddingIndex.seedLoop, he]
    rw [← hown] at hentry hget
    have hnext := h.accept hv hentry
    rw [Dict.set_same hget] at hnext
    exact ih _ (s := { s with fresh := pushEntry (some e) s.fresh })
      (fun p hp => hitems p (List.mem_cons_of_mem _ hp)) hnext

theorem Sound.seedBuffer {s : MemoryEmbeddingIndex Vec} (h : s.Sound) (now : String) :
    (seedBuffer now s).Sound ∧ (MemoryEmbeddingIndex.seedBuffer now s).byId = s.byId := by
  apply Sound.seedLoop _ 0 _ h
  intro p hp
  have hmem : p ∈ s.byId.items := (List.mem_insertionSort _).mp (List.mem_of_mem_take hp)
  exact (s.byId.get?_eq_some_iff p.1 p.2).mpr hmem

omit [PyCoerce] in
theorem Sound.optimize {s : MemoryEmbeddingIndex Vec} (h : s.Sound) (now : String) (mono : Int) :
    (optimize now mono s).Sound := by
  apply Coherent.trim h (RecentBuffer.trimOlderThan_maxSize _ _)
  intro id e he
  exact RecentBuffer.get_of_trimOlderThan he

end Calls

end MemoryEmbeddingIndex

section Run

variable [PyCoerce]

/-- A put gives the store a dated atom, and the buffer nothing else about it than the atom says. -/
def Steady (s : MemoryEmbeddingIndex Vec) : IndexCall Vec → Prop
  | .putAtom a => (∃ iso, toIsoZ a.tStart = .ok iso) ∧
    ∀ e, s.fresh.buffer.get a.atomId = some e → Copies e a
  | _ => True

theorem stepIndex_sound {s : MemoryEmbeddingIndex Vec} {call : IndexCall Vec} (hc : Steady s call)
    (h : s.Sound) : (stepIndex s call).Sound := by
  cases call with
  | upsert emb now fails => exact h.upsert emb now fails
  | repairJointCopies limit now fails =>
    apply (Sound.repairLoop s.byId.items _ [] h).1
    intro p hp
    exact h.keyed p.1 p.2 ((s.byId.get?_eq_some_iff p.1 p.2).mpr hp)
  | seedBuffer now => exact (h.seedBuffer now).1
  | optimize now mono => exact h.optimize now mono
  | putAtom a =>
    show Coherent ((s.store.putAtom a false).getD s.store) s.byId s.fresh.buffer
    cases hput : s.store.putAtom a false with
    | none => exact h
    | some store => exact Coherent.put h hc.1 hc.2 hput
  | deleteAtom atomId =>
    apply Coherent.restore h
    intro id a ha
    have hold : s.store.getAtom id = some a := by
      have hpop : (s.store.byId.pop atomId).get? id = some a := ha
      rw [Dict.get?_pop] at hpop
      split_ifs at hpop
      exact hpop
    exact ⟨h.stored id a hold, h.dated id a hold, fun e he => h.copies id e a he hold⟩

/-- The dict main after a call: what the call stored, else what was there. -/
theorem stepIndex_byId {s : MemoryEmbeddingIndex Vec} (h : s.Sound) (call : IndexCall Vec)
    (id : String) :
    (stepIndex s call).byId.get? id = (lastAccepted (acceptedBy s call) id).or (s.byId.get? id) := by
  cases call with
  | upsert emb now fails =>
    show (upsert emb now fails s).byId.get? id = (lastAccepted (if _ then _ else _) id).or _
    unfold MemoryEmbeddingIndex.upsert
    by_cases hready : emb.embeddingsAreReady s.requireJoint = true
    · rw [if_neg (by simp [hready]), if_pos hready, lastAccepted_single]
      have hset : (s.byId.set emb.atomId emb).get? id =
          (if emb.atomId = id then some emb else none).or (s.byId.get? id) := by
        rw [Dict.get?_set]
        split_ifs <;> rfl
      dsimp only
      split <;> exact hset
    · rw [if_pos (by simpa using hready), if_neg hready]
      rfl
  | repairJointCopies limit now fails =>
    have hitems : ∀ p ∈ s.byId.items, p.2.atomId = p.1 := fun p hp =>
      h.keyed p.1 p.2 ((s.byId.get?_eq_some_iff p.1 p.2).mpr hp)
    obtain ⟨-, added, hadded, hget⟩ := @Sound.repairLoop _ _ limit.toNat now fails
      s.byId.items hitems [] _ h
    show (MemoryEmbeddingIndex.repairLoop _ _ _ _ _ _).1.byId.get? id =
      (lastAccepted (MemoryEmbeddingIndex.repairLoop _ _ _ _ _ _).2 id).or _
    rw [hget id, hadded]
    rfl
  | seedBuffer now =>
    show (MemoryEmbeddingIndex.seedBuffer now s).byId.get? id = _
    rw [(h.seedBuffer now).2]
    rfl
  | optimize now mono => rfl
  | putAtom a => rfl
  | deleteAtom atomId => rfl

theorem run_sound (s : MemoryEmbeddingIndex Vec) (calls : List (IndexCall Vec))
    (hc : Along stepIndex Steady s calls) (h : s.Sound) : (run stepIndex s calls).Sound :=
  Along.invariant _ (fun _ _ hcall hs => stepIndex_sound hcall hs) s calls hc h

/-- The dict main holds the last set that was stored for each atom. -/
theorem run_byId (s : MemoryEmbeddingIndex Vec) (calls : List (IndexCall Vec))
    (hc : Along stepIndex Steady s calls) (h : s.Sound) (id : String) :
    (run stepIndex s calls).byId.get? id =
      (lastAccepted (acceptedAlong s calls) id).or (s.byId.get? id) := by
  induction calls generalizing s with
  | nil => rfl
  | cons call calls ih =>
    rw [run_cons, ih _ hc.2 (stepIndex_sound hc.1 h), stepIndex_byId h, acceptedAlong,
      lastAccepted_append, Option.or_assoc]

end Run

end Elyra.Memory
