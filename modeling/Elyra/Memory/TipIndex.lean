import Elyra.Memory.StoreCores

namespace Elyra.Memory

namespace JsonlMemoryStore

/-- The index of a store: each row under its own id, each ladder entry the id of a live row of that
key. -/
structure Indexed (s : JsonlMemoryStore) : Prop where
  keyed : ∀ id a, s.byId.get? id = some a → a.atomId = id
  live : ∀ key id, s.ladder.get? key = some id → ∃ a, s.byId.get? id = some a ∧ a.tipKey = some key

theorem mem_atoms {rows : Dict String Atom} (h : ∀ id a, rows.get? id = some a → a.atomId = id)
    (a : Atom) : a ∈ rows.values ↔ rows.get? a.atomId = some a := by
  rw [Dict.mem_values]
  constructor
  · intro ⟨id, hid⟩
    rw [h id a hid]
    exact hid
  · intro hid
    exact ⟨a.atomId, hid⟩

theorem Indexed.mem_values {s : JsonlMemoryStore} (hs : Indexed s) (a : Atom) :
    a ∈ s.byId.values ↔ s.byId.get? a.atomId = some a := mem_atoms hs.keyed a

theorem atomIds_nodup {rows : Dict String Atom}
    (h : ∀ id a, rows.get? id = some a → a.atomId = id) : (rows.values.map Atom.atomId).Nodup := by
  have hids : rows.values.map Atom.atomId = rows.keys := by
    rw [Dict.values, Dict.keys, List.map_map]
    apply List.map_congr_left
    intro e he
    exact h e.1 e.2 ((Dict.get?_eq_some_iff rows e.1 e.2).mpr he)
  rw [hids]
  exact rows.keys_nodup

/-- The index alone: two stores that differ in their files at most. -/
structure SameIndex (s t : JsonlMemoryStore) : Prop where
  settings : t.settings = s.settings
  byId : t.byId = s.byId
  ladder : t.ladder = s.ladder

theorem SameIndex.indexed {s t : JsonlMemoryStore} (h : SameIndex s t) (hs : Indexed s) :
    Indexed t := by
  have hrows := h.byId
  have htips := h.ladder
  refine ⟨?_, ?_⟩
  · rw [hrows]
    exact hs.keyed
  · rw [hrows, htips]
    exact hs.live

/-- The only entry that `dropTip` takes away is one of the atom itself. -/
theorem get?_dropTip (old : Option Atom) (ladder : Dict TipKey String) (key : TipKey) :
    (dropTip old ladder).get? key =
      if ∃ a, old = some a ∧ a.tipKey = some key ∧ ladder.get? key = some a.atomId then none
      else ladder.get? key := by
  cases old with
  | none => simp [dropTip]
  | some a =>
    cases hkey : a.tipKey with
    | none => simp [dropTip, hkey]
    | some k =>
      simp only [dropTip, hkey]
      by_cases hk : k = key
      · subst k
        by_cases hid : ladder.get? key = some a.atomId
        · simp [hid, hkey, Dict.get?_pop]
        · simp [hid]
      · have hother : ¬∃ b, some a = some b ∧ b.tipKey = some key ∧
            ladder.get? key = some b.atomId := by
          intro ⟨b, hb, htip, _⟩
          rw [← Option.some.inj hb, hkey] at htip
          exact hk (Option.some.inj htip)
        rw [if_neg hother]
        split_ifs
        · rw [Dict.get?_pop, if_neg hk]
        · rfl

theorem live_dropTip {s : JsonlMemoryStore} (hs : Indexed s) (atomId : String) (key : TipKey)
    (id : String) (h : (dropTip (s.byId.get? atomId) s.ladder).get? key = some id) :
    s.ladder.get? key = some id ∧ id ≠ atomId := by
  rw [get?_dropTip] at h
  split_ifs at h with hold
  refine ⟨h, ?_⟩
  intro hid
  obtain ⟨a, hrow, htip⟩ := hs.live key id h
  have hself : a.atomId = id := hs.keyed id a hrow
  rw [hid] at hrow
  exact hold ⟨a, hrow, htip, by rw [hself, h]⟩

/-- The store in which an indexed atom replaces the row of its id, before the tips are compared. -/
def replaced (a : Atom) (s : JsonlMemoryStore) : JsonlMemoryStore :=
  { s with
    ladder := dropTip (s.byId.get? a.atomId) s.ladder
    byId := s.byId.set a.atomId a }

theorem Indexed.replaced {s : JsonlMemoryStore} (hs : Indexed s) (a : Atom) :
    Indexed (replaced a s) := by
  refine ⟨?_, ?_⟩
  · intro id b hb
    rw [JsonlMemoryStore.replaced, Dict.get?_set] at hb
    split_ifs at hb with hid
    · rw [← Option.some.inj hb]
      exact hid
    · exact hs.keyed id b hb
  · intro key id h
    obtain ⟨hlive, hne⟩ := live_dropTip hs a.atomId key id h
    obtain ⟨b, hrow, htip⟩ := hs.live key id hlive
    exact ⟨b, (Dict.get?_set_ne s.byId a (Ne.symm hne)).trans hrow, htip⟩

section Writes

variable [PyCoerce]

/-- A tip moves to the atom or stays; nothing else changes. -/
theorem raiseTip_run (s : JsonlMemoryStore) (a : Atom) :
    after (raiseTip a s) = s ∨
      ∃ key, a.tipKey = some key ∧
        after (raiseTip a s) = { s with ladder := s.ladder.set key a.atomId } := by
  rw [raiseTip]
  cases a.tipKey with
  | none => exact .inl rfl
  | some key =>
    dsimp only
    cases s.ladder.get? key with
    | none => exact .inr ⟨key, rfl, rfl⟩
    | some curId =>
      dsimp only
      split_ifs
      · exact .inr ⟨key, rfl, rfl⟩
      · cases s.byId.get? curId with
        | none => exact .inr ⟨key, rfl, rfl⟩
        | some cur =>
          dsimp only
          cases newer a cur with
          | error e => exact .inl rfl
          | ok b =>
            cases b with
            | true => exact .inr ⟨key, rfl, rfl⟩
            | false => exact .inl rfl

theorem indexPut_eq (s : JsonlMemoryStore) (a : Atom) :
    indexPut a s = raiseTip a (replaced a s) := rfl

theorem Indexed.indexPut {s : JsonlMemoryStore} (hs : Indexed s) (a : Atom) :
    Indexed (after (indexPut a s)) := by
  have hr := hs.replaced a
  rw [indexPut_eq]
  obtain hstay | ⟨key, htip, hmove⟩ := raiseTip_run (JsonlMemoryStore.replaced a s) a
  · rw [hstay]
    exact hr
  · rw [hmove]
    refine ⟨hr.keyed, ?_⟩
    intro key' id h
    rw [Dict.get?_set] at h
    split_ifs at h with hkey
    · refine ⟨a, ?_, ?_⟩
      · rw [← Option.some.inj h]
        exact Dict.get?_set_self s.byId a.atomId a
      · rw [htip, hkey]
    · exact hr.live key' id h

/-- The part of a put after its validation. -/
theorem putAtom_run (s : JsonlMemoryStore) (a : Atom) :
    ∃ d, putAtom a s = match prepareForPut s.settings a with
      | .ok p => (indexPut p >>= fun _ => pure p : Py JsonlMemoryStore Atom)
          { s with dir := d }
      | .error e => .error e { s with dir := d } := by
  obtain ⟨d, hprepare⟩ := prepare_run s a
  cases hp : prepareForPut s.settings a with
  | error e =>
    refine ⟨d, ?_⟩
    rw [putAtom, run_bind, hprepare, hp]
  | ok p =>
    refine ⟨d.appendAtomRow (rowForDisk p), ?_⟩
    rw [putAtom, run_bind, hprepare, hp]
    rfl

theorem Indexed.putAtom {s : JsonlMemoryStore} (hs : Indexed s) (a : Atom) :
    Indexed (after (putAtom a s)) := by
  obtain ⟨d, hrun⟩ := putAtom_run s a
  have hd : Indexed { s with dir := d } := SameIndex.indexed (s := s) ⟨rfl, rfl, rfl⟩ hs
  rw [hrun]
  cases hp : prepareForPut s.settings a with
  | error e => exact hd
  | ok p =>
    show Indexed (after ((JsonlMemoryStore.indexPut p >>= fun _ => pure p : Py _ _) _))
    rw [after_bind_pure]
    exact hd.indexPut p

theorem Indexed.updateLinks {s : JsonlMemoryStore} (hs : Indexed s) (atomId : String)
    (prev next : LinkChange) : Indexed (after (updateLinks atomId prev next s)) := by
  rw [updateLinks_eq]
  cases s.byId.get? atomId with
  | none => exact hs
  | some a =>
    dsimp only
    split_ifs
    · exact hs
    · let p := LinkChange.applied a prev next
      let t : JsonlMemoryStore := { s with dir := s.dir.appendAtomRow (rowForDisk p) }
      have ht : Indexed t := SameIndex.indexed (s := s) ⟨rfl, rfl, rfl⟩ hs
      show Indexed (after ((JsonlMemoryStore.indexPut p >>= fun _ => pure p : Py _ _) t))
      rw [after_bind_pure]
      exact ht.indexPut p

omit [PyCoerce] in
theorem Indexed.deleteAtom {s : JsonlMemoryStore} (hs : Indexed s) (atomId : String) :
    Indexed (after (deleteAtom atomId s)) := by
  rw [JsonlMemoryStore.deleteAtom]
  cases hold : s.byId.get? atomId with
  | none => exact hs
  | some old =>
    refine ⟨?_, ?_⟩
    · intro id a ha
      have hrow : (s.byId.pop atomId).get? id = some a := ha
      rw [Dict.get?_pop] at hrow
      split_ifs at hrow
      exact hs.keyed id a hrow
    · intro key id hdrop
      have h : (dropTip (some old) s.ladder).get? key = some id := hdrop
      rw [← hold] at h
      obtain ⟨hlive, hne⟩ := live_dropTip hs atomId key id h
      obtain ⟨a, hrow, htip⟩ := hs.live key id hlive
      refine ⟨a, ?_, htip⟩
      show (s.byId.pop atomId).get? id = some a
      rw [Dict.get?_pop, if_neg (Ne.symm hne)]
      exact hrow

/-- The best rows of a rebuild are rows of the table, each under its own key. -/
theorem bestStep_rows (rows : List Atom) (best best' : Dict TipKey Atom) (a : Atom)
    (ha : a ∈ rows) (hb : ∀ key c, best.get? key = some c → c ∈ rows ∧ c.tipKey = some key)
    (h : bestStep best a = .ok best') :
    ∀ key c, best'.get? key = some c → c ∈ rows ∧ c.tipKey = some key := by
  have hset (key : TipKey) (hkey : a.tipKey = some key) :
      ∀ key' c, (best.set key a).get? key' = some c → c ∈ rows ∧ c.tipKey = some key' := by
    intro key' c hc
    rw [Dict.get?_set] at hc
    split_ifs at hc with heq
    · rw [← Option.some.inj hc, ← heq]
      exact ⟨ha, hkey⟩
    · exact hb key' c hc
  rw [bestStep] at h
  cases hkey : a.tipKey with
  | none =>
    simp only [hkey] at h
    rw [← Except.ok.inj h]
    exact hb
  | some key =>
    simp only [hkey] at h
    cases hcur : best.get? key with
    | none =>
      simp only [hcur] at h
      rw [← Except.ok.inj h]
      exact hset key hkey
    | some cur =>
      simp only [hcur] at h
      obtain ⟨b, -, h⟩ := except_bind_ok h
      cases b with
      | true =>
        rw [← Except.ok.inj h]
        exact hset key hkey
      | false =>
        rw [← Except.ok.inj h]
        exact hb

theorem foldlM_bestStep_rows (rows pending : List Atom) (hsub : ∀ a ∈ pending, a ∈ rows)
    (best best' : Dict TipKey Atom)
    (hb : ∀ key c, best.get? key = some c → c ∈ rows ∧ c.tipKey = some key)
    (h : pending.foldlM bestStep best = .ok best') :
    ∀ key c, best'.get? key = some c → c ∈ rows ∧ c.tipKey = some key := by
  induction pending generalizing best with
  | nil =>
    rw [← Except.ok.inj h]
    exact hb
  | cons a pending ih =>
    rw [List.foldlM_cons] at h
    obtain ⟨next, hnext, h⟩ := except_bind_ok h
    have ha : a ∈ rows := hsub a List.mem_cons_self
    exact ih (fun b hmem => hsub b (List.mem_cons_of_mem a hmem)) next
      (bestStep_rows rows best next a ha hb hnext) h

omit [PyCoerce] in
theorem get?_mapItems (best : Dict TipKey Atom) (key : TipKey) (id : String)
    (h : (Dict.ofList (best.items.map fun p => (p.1, p.2.atomId))).get? key = some id) :
    ∃ a, best.get? key = some a ∧ a.atomId = id := by
  have hkeys : ((best.items.map fun p => (p.1, p.2.atomId)).map Prod.fst).Nodup := by
    rw [List.map_map]
    exact best.nodup
  have hitems := Dict.ofList_items ⟨best.items.map fun p => (p.1, p.2.atomId), hkeys⟩
  rw [hitems] at h
  have hfind : (Dict.findItem best.items key).map Atom.atomId = some id := by
    rw [← Dict.findItem_map]
    exact h
  exact Option.map_eq_some_iff.mp hfind

theorem loadRow_keyed (d : MemoryDir) (byId byId' : Dict String Atom) (row : Json)
    (hk : ∀ id a, byId.get? id = some a → a.atomId = id) (h : loadRow d byId row = .ok byId') :
    ∀ id a, byId'.get? id = some a → a.atomId = id := by
  have hset (b : Atom) : ∀ id a, (byId.set b.atomId b).get? id = some a → a.atomId = id := by
    intro id a ha
    rw [Dict.get?_set] at ha
    split_ifs at ha with hid
    · rw [← Option.some.inj ha]
      exact hid
    · exact hk id a ha
  have hpop (x : String) : ∀ id a, (byId.pop x).get? id = some a → a.atomId = id := by
    intro id a ha
    rw [Dict.get?_pop] at ha
    split_ifs at ha
    exact hk id a ha
  rw [loadRow.eq_def] at h
  split at h
  · split_ifs at h
    · split at h
      · rw [← Except.ok.inj h]
        split_ifs
        · exact hk
        · exact hpop _
      · rw [← Except.ok.inj h]
        exact hk
    · split at h
      · rw [← Except.ok.inj h]
        exact hset _
      · rw [← Except.ok.inj h]
        exact hk
      · rw [← Except.ok.inj h]
        exact hk
      · rw [← Except.ok.inj h]
        exact hk
      · cases h
  · rw [← Except.ok.inj h]
    exact hk

theorem foldlM_loadRow_keyed (d : MemoryDir) (rows : List Json) (byId byId' : Dict String Atom)
    (hk : ∀ id a, byId.get? id = some a → a.atomId = id)
    (h : rows.foldlM (loadRow d) byId = .ok byId') :
    ∀ id a, byId'.get? id = some a → a.atomId = id := by
  induction rows generalizing byId with
  | nil =>
    rw [← Except.ok.inj h]
    exact hk
  | cons row rows ih =>
    rw [List.foldlM_cons] at h
    obtain ⟨next, hnext, h⟩ := except_bind_ok h
    exact ih next (loadRow_keyed d byId next row hk hnext) h

/-- A store object that was just opened, on any directory. -/
theorem indexed_openStore (settings : MemorySettings) (d : MemoryDir) (s : JsonlMemoryStore)
    (h : openStore settings d = .ok s) : Indexed s := by
  rw [openStore] at h
  cases hdecode : decodeUtf8 d.atomsFile.bytes with
  | none =>
    rw [hdecode] at h
    cases h
  | some cs =>
    rw [hdecode] at h
    obtain ⟨byId, hload, h⟩ := except_bind_ok h
    obtain ⟨ladder, hladder, h⟩ := except_bind_ok h
    obtain ⟨best, hbest, hladder⟩ := except_bind_ok hladder
    have hkeyed : ∀ id a, byId.get? id = some a → a.atomId = id :=
      foldlM_loadRow_keyed d _ .empty byId (fun id a ha => nomatch ha) hload
    rw [← Except.ok.inj h]
    refine ⟨hkeyed, ?_⟩
    intro key id hid
    rw [← Except.ok.inj hladder] at hid
    obtain ⟨a, hrow, hself⟩ := get?_mapItems best key id hid
    obtain ⟨hmem, htip⟩ := foldlM_bestStep_rows byId.values byId.values (fun _ hb => hb) .empty best
      (fun _ _ hc => nomatch hc) hbest key a hrow
    obtain ⟨k, hk⟩ := (Dict.mem_values byId a).mp hmem
    rw [← hself, hkeyed k a hk]
    exact ⟨a, hk, htip⟩

/-- The store objects of any run: opened on any directory, then changed by the operations. -/
inductive Reached : JsonlMemoryStore → Prop
  | opened (settings : MemorySettings) (d : MemoryDir) (s : JsonlMemoryStore)
      (h : openStore settings d = .ok s) : Reached s
  | put (s : JsonlMemoryStore) (a : Atom) (hs : Reached s) : Reached (after (putAtom a s))
  | linked (s : JsonlMemoryStore) (atomId : String) (prev next : LinkChange) (hs : Reached s) :
      Reached (after (updateLinks atomId prev next s))
  | deleted (s : JsonlMemoryStore) (atomId : String) (hs : Reached s) :
      Reached (after (deleteAtom atomId s))
  | compacted (s : JsonlMemoryStore) (hs : Reached s) : Reached s.compact

theorem Reached.indexed {s : JsonlMemoryStore} (h : Reached s) : Indexed s := by
  induction h with
  | opened settings d s h => exact indexed_openStore settings d s h
  | put s a hs ih => exact ih.putAtom a
  | linked s atomId prev next hs ih => exact ih.updateLinks atomId prev next
  | deleted s atomId hs ih => exact ih.deleteAtom atomId
  | compacted s hs ih => exact SameIndex.indexed (s := s) ⟨rfl, rfl, rfl⟩ ih

end Writes
end JsonlMemoryStore
end Elyra.Memory
