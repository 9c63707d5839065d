import Elyra.Memory.VectorSearchRun
import Mathlib.Data.List.ReduceOption

namespace Elyra.Memory

section Collect

variable {ε α β κ : Type}

/-- What a loop that skips collects: the hits of the rows, under keys of the rows. -/
theorem mapM_collect {f : α → Except ε (Option β)} (rows : List α)
    (hok : ∀ x ∈ rows, ∃ o, f x = .ok o) (key : β → κ) (rowKey : α → κ)
    (hkey : ∀ x ∈ rows, ∀ h, f x = .ok (some h) → key h = rowKey x) :
    ∃ hits, rows.mapM f = .ok hits ∧
      (∀ h, h ∈ hits.reduceOption ↔ ∃ x ∈ rows, f x = .ok (some h)) ∧
      (hits.reduceOption.map key).Sublist (rows.map rowKey) := by
  induction rows with
  | nil => exact ⟨[], rfl, by simp [List.reduceOption], by simp [List.reduceOption]⟩
  | cons x rows ih =>
    obtain ⟨o, ho⟩ := hok x List.mem_cons_self
    obtain ⟨hits, hhits, hmem, hsub⟩ := ih (fun y hy => hok y (List.mem_cons_of_mem _ hy))
      (fun y hy => hkey y (List.mem_cons_of_mem _ hy))
    refine ⟨o :: hits, ?_, ?_, ?_⟩
    · rw [List.mapM_cons, ho, hhits]
      rfl
    · intro h
      cases o with
      | none =>
        rw [List.reduceOption_cons_of_none, hmem]
        simp [ho]
      | some y =>
        rw [List.reduceOption_cons_of_some, List.mem_cons, hmem]
        simp only [List.mem_cons, exists_eq_or_imp, ho, Except.ok.injEq, Option.some.injEq]
        rw [eq_comm]
    · cases o with
      | none =>
        rw [List.reduceOption_cons_of_none]
        exact hsub.trans (List.sublist_cons_self _ _)
      | some y =>
        rw [List.reduceOption_cons_of_some, List.map_cons, List.map_cons,
          hkey x List.mem_cons_self y ho]
        exact hsub.cons_cons _

end Collect

section Merge

variable {Score : Type} [LinearOrder Score]

/-- A dict of exactly these hits. -/
def HoldsHits (d : Dict String (ScoredAtom Score)) (hits : List (ScoredAtom Score)) : Prop :=
  ∀ id h, d.get? id = some h ↔ h ∈ hits ∧ h.atomId = id

theorem keepBest_holds {d : Dict String (ScoredAtom Score)} {hits : List (ScoredAtom Score)}
    (hd : HoldsHits d hits) {hit : ScoredAtom Score}
    (hsame : ∀ x ∈ hits, x.atomId = hit.atomId → x = hit) :
    HoldsHits (keepBest d hit) (hits ++ [hit]) := by
  intro id h
  rw [List.mem_append, List.mem_singleton, keepBest]
  cases hprev : d.get? hit.atomId with
  | none =>
    dsimp only
    rw [Dict.get?_set]
    split_ifs with hid
    · constructor
      · intro heq
        obtain rfl := Option.some.inj heq
        exact ⟨.inr rfl, hid⟩
      · rintro ⟨hmem | rfl, hown⟩
        · have hget := (hd h.atomId h).mpr ⟨hmem, rfl⟩
          rw [hown, ← hid, hprev] at hget
          cases hget
        · rfl
    · rw [hd]
      constructor
      · exact fun hold => ⟨.inl hold.1, hold.2⟩
      · rintro ⟨hmem | rfl, hown⟩
        · exact ⟨hmem, hown⟩
        · exact absurd hown hid
  | some prev =>
    have hpair := (hd hit.atomId prev).mp hprev
    obtain rfl := hsame prev hpair.1 hpair.2
    dsimp only
    rw [if_neg (lt_irrefl _), hd]
    constructor
    · exact fun hold => ⟨.inl hold.1, hold.2⟩
    · rintro ⟨hmem | rfl, hown⟩
      · exact ⟨hmem, hown⟩
      · exact ⟨hpair.1, hown⟩

theorem foldl_keepBest_holds (rest done : List (ScoredAtom Score))
    (hsame : ∀ x ∈ done ++ rest, ∀ y ∈ done ++ rest, x.atomId = y.atomId → x = y)
    {d : Dict String (ScoredAtom Score)} (hd : HoldsHits d done) :
    HoldsHits (rest.foldl keepBest d) (done ++ rest) := by
  induction rest generalizing done d with
  | nil => simpa using hd
  | cons hit rest ih =>
    have hsplit : done ++ hit :: rest = (done ++ [hit]) ++ rest := by simp
    rw [hsplit] at hsame ⊢
    apply ih (done ++ [hit]) hsame
    apply keepBest_holds hd
    intro x hx
    exact hsame x (by simp [hx]) hit (by simp)

/-- Where an id determines its hit, the union has each hit once. -/
theorem keepBest_values (hits : List (ScoredAtom Score))
    (hsame : ∀ x ∈ hits, ∀ y ∈ hits, x.atomId = y.atomId → x = y) :
    (hits.foldl keepBest .empty).values.Nodup ∧
      ∀ h, h ∈ (hits.foldl keepBest .empty).values ↔ h ∈ hits := by
  have hd : HoldsHits (hits.foldl keepBest .empty) hits :=
    foldl_keepBest_holds hits [] hsame (by intro id h; simp)
  have hmem : ∀ h, h ∈ (hits.foldl keepBest .empty).values ↔ h ∈ hits := by
    intro h
    rw [Dict.mem_values]
    constructor
    · rintro ⟨id, hid⟩
      exact ((hd id h).mp hid).1
    · intro hh
      exact ⟨h.atomId, (hd h.atomId h).mpr ⟨hh, rfl⟩⟩
  refine ⟨?_, hmem⟩
  have hkeys : (hits.foldl keepBest .empty).values.map ScoredAtom.atomId =
      (hits.foldl keepBest .empty).keys := by
    rw [Dict.values, Dict.keys, List.map_map]
    apply List.map_congr_left
    intro p hp
    exact ((hd p.1 p.2).mp ((Dict.get?_eq_some_iff _ p.1 p.2).mpr hp)).2
  apply List.Nodup.of_map ScoredAtom.atomId
  rw [hkeys]
  exact Dict.keys_nodup _

end Merge

section Search

variable {Vec Query Score : Type} (cosine : Query → Vec → Option Score)

/-- A hit that the brute force answer ranks: the atom has a vector of the channel in its last set,
the vector scores, and the filters let the atom through. -/
structure Candidate (store : IndexedStore) (last : String → Option (EmbeddingSet Vec))
    (query : Query) (channel : Channel) (f : SearchFilters) (h : ScoredAtom Score) : Prop where
  inChannel : h.channel = channel
  atom : h.atom = store.getAtom h.atomId
  included : h.atomId ∉ f.excludeAtomIds
  allowed : Allowed (store.getAtom h.atomId) f
  scored : ∃ emb v, last h.atomId = some emb ∧ emb.channelVector channel = some v ∧
    cosine query v = some h.score

/-- An id determines its candidate. -/
theorem Candidate.unique {store : IndexedStore} {last : String → Option (EmbeddingSet Vec)}
    {query : Query} {channel : Channel} {f : SearchFilters} {x y : ScoredAtom Score}
    (hx : Candidate cosine store last query channel f x)
    (hy : Candidate cosine store last query channel f y) (hid : x.atomId = y.atomId) : x = y := by
  obtain ⟨emb, v, hlast, hvec, hscore⟩ := hx.scored
  obtain ⟨emb', v', hlast', hvec', hscore'⟩ := hy.scored
  rw [hid, hlast'] at hlast
  obtain rfl := Option.some.inj hlast
  rw [hvec'] at hvec
  obtain rfl := Option.some.inj hvec
  rw [hscore'] at hscore
  have hatom : x.atom = y.atom := by rw [hx.atom, hy.atom, hid]
  have hchannel : x.channel = y.channel := hx.inChannel.trans hy.inChannel.symm
  cases x
  cases y
  simp_all

/-- No filter reads an atom, or every buffered atom is in the store. -/
def Answerable (s : MemoryEmbeddingIndex Vec) (f : SearchFilters) : Prop :=
  f.plain = true ∨ ∀ id e, s.fresh.buffer.get id = some e → ∃ a, s.store.getAtom id = some a

namespace MemoryEmbeddingIndex

variable {s : MemoryEmbeddingIndex Vec} {f : SearchFilters}

theorem mainHit_spec (h : s.Sound) (hf : f.Timed) (query : Query) (channel : Channel)
    {id : String} {emb : EmbeddingSet Vec} (hemb : s.byId.get? id = some emb) :
    ∃ o : Option (ScoredAtom Score), s.mainHit cosine query channel f id emb = .ok o ∧
      ∀ hit, o = some hit ↔
        hit.atomId = id ∧ Candidate cosine s.store s.byId.get? query channel f hit := by
  obtain ⟨b, hb, hiff⟩ := passesFilters_spec (h.dated id) hf id
  have hrun : s.mainHit cosine query channel f id emb = .ok (if b then
      (emb.channelVector channel).bind fun vec =>
        (cosine query vec).map fun score => ⟨id, score, channel, s.store.getAtom id⟩
      else none) := by
    unfold mainHit
    dsimp only
    rw [hb]
    cases b <;> rfl
  refine ⟨_, hrun, ?_⟩
  intro hit
  cases b with
  | false =>
    simp only [Bool.false_eq_true, if_false, reduceCtorEq, false_iff, not_and]
    rintro rfl hc
    exact Bool.false_ne_true (hiff.mpr ⟨hc.included, hc.allowed⟩)
  | true =>
    obtain ⟨hincluded, hallowed⟩ := hiff.mp rfl
    simp only [if_true, Option.bind_eq_some_iff, Option.map_eq_some_iff]
    constructor
    · rintro ⟨v, hv, score, hscore, rfl⟩
      exact ⟨rfl, rfl, rfl, hincluded, hallowed, emb, v, hemb, hv, hscore⟩
    · rintro ⟨rfl, hc⟩
      obtain ⟨emb', v, hlast, hvec, hscore⟩ := hc.scored
      rw [hemb] at hlast
      obtain rfl := Option.some.inj hlast
      refine ⟨v, hvec, hit.score, hscore, ?_⟩
      rw [← hc.atom, ← hc.inChannel]

theorem bufferHit_spec (h : s.Sound) (hf : f.Timed) (ha : Answerable s f) (query : Query)
    (channel : Channel) {id : String} {e : RecentBufferEntry Vec}
    (he : s.fresh.buffer.get id = some e) :
    ∃ o : Option (ScoredAtom Score), s.bufferHit cosine query channel f e = .ok o ∧
      ∀ hit, o = some hit → Candidate cosine s.store s.byId.get? query channel f hit := by
  obtain ⟨hown, emb, hemb, hvec⟩ := h.buffered id e he
  obtain ⟨b, hb, hpass⟩ := bufferEntryPasses_spec e hf
  unfold bufferHit
  by_cases hchannel : e.channel ≠ channel
  · rw [if_pos hchannel]
    exact ⟨none, rfl, by simp⟩
  rw [if_neg hchannel]
  obtain rfl := not_not.mp hchannel
  rw [hb]
  cases b with
  | false => exact ⟨none, rfl, by simp⟩
  | true =>
    obtain ⟨hincluded, hpasses⟩ := hpass rfl
    by_cases hnot : (s.store.getAtom e.atomId).any (fun a => a.embeddingStatus ≠ "ready") = true
    · refine ⟨none, ?_, by simp⟩
      show (if _ then _ else _) = _
      rw [if_pos hnot]
      rfl
    refine ⟨(cosine query e.vector).map fun score =>
      ⟨e.atomId, score, e.channel, s.store.getAtom e.atomId⟩, ?_, ?_⟩
    · show (if _ then _ else _) = _
      rw [if_neg hnot]
      rfl
    · intro hit hhit
      obtain ⟨score, hscore, rfl⟩ := Option.map_eq_some_iff.mp hhit
      refine ⟨rfl, rfl, hincluded, ?_, emb, e.vector, ?_, hvec, hscore⟩
      · rw [hown]
        cases hatom : s.store.getAtom id with
        | none =>
          obtain hplain | hstored := ha
          · exact hplain
          · obtain ⟨a, ha⟩ := hstored id e he
            rw [hatom] at ha
            cases ha
        | some a =>
          apply hpasses a (h.copies id e a he hatom)
          rw [hown, hatom] at hnot
          simpa using hnot
      · show s.byId.get? e.atomId = some emb
        rw [hown]
        exact hemb

theorem searchBuffer_spec (h : s.Sound) (hf : f.Timed) (ha : Answerable s f) (query : Query)
    (channel : Channel) :
    ∃ hits : List (ScoredAtom Score), s.searchBuffer cosine query channel f = .ok hits ∧
      ∀ hit ∈ hits, Candidate cosine s.store s.byId.get? query channel f hit := by
  have hrow : ∀ e ∈ s.fresh.buffer.items, ∃ id, s.fresh.buffer.get id = some e := fun e he =>
    (s.fresh.buffer.byId.mem_values e).mp he
  obtain ⟨rows, hrows, hmem, -⟩ := mapM_collect
    (f := fun e => s.bufferHit cosine query channel f e) s.fresh.buffer.items
    (fun e he => by
      obtain ⟨id, hid⟩ := hrow e he
      obtain ⟨o, ho, -⟩ := bufferHit_spec cosine h hf ha query channel hid
      exact ⟨o, ho⟩)
    (fun _ => ()) (fun _ => ()) (fun _ _ _ _ => rfl)
  refine ⟨rows.reduceOption, ?_, ?_⟩
  · rw [searchBuffer, hrows]
    rfl
  · intro hit hhit
    obtain ⟨e, he, hok⟩ := (hmem hit).mp hhit
    obtain ⟨id, hid⟩ := hrow e he
    obtain ⟨o, ho, hc⟩ := bufferHit_spec cosine h hf ha query channel hid
    rw [ho] at hok
    exact hc hit (Except.ok.inj hok)

variable [LinearOrder Score]

/-- The main scan ranks the candidates, each once. -/
theorem searchMain_spec (h : s.Sound) (hf : f.Timed) (query : Query) (channel : Channel) :
    ∃ hits : List (ScoredAtom Score), hits.Nodup ∧ hits.length ≤ s.byId.items.length ∧
      (∀ hit, hit ∈ hits ↔ Candidate cosine s.store s.byId.get? query channel f hit) ∧
      ∀ k, s.searchMain cosine query k channel f = .ok (topRanked rank k hits) := by
  have hrow : ∀ p ∈ s.byId.items, s.byId.get? p.1 = some p.2 := fun p hp =>
    (s.byId.get?_eq_some_iff p.1 p.2).mpr hp
  obtain ⟨rows, hrows, hmem, hsub⟩ := mapM_collect
    (f := fun p => s.mainHit cosine query channel f p.1 p.2) s.byId.items
    (fun p hp => (mainHit_spec cosine h hf query channel (hrow p hp)).imp fun _ ho => ho.1)
    ScoredAtom.atomId Prod.fst (by
      intro p hp hit hhit
      obtain ⟨o, ho, hiff⟩ := mainHit_spec cosine h hf query channel (hrow p hp)
      rw [ho] at hhit
      exact ((hiff hit).mp (Except.ok.inj hhit)).1)
  refine ⟨rows.reduceOption, ?_, ?_, ?_, ?_⟩
  · exact List.Nodup.of_map _ (s.byId.nodup.sublist hsub)
  · simpa using hsub.length_le
  · intro hit
    rw [hmem]
    constructor
    · rintro ⟨p, hp, hhit⟩
      obtain ⟨o, ho, hiff⟩ := mainHit_spec cosine h hf query channel (hrow p hp)
      rw [ho] at hhit
      exact ((hiff hit).mp (Except.ok.inj hhit)).2
    · intro hc
      obtain ⟨emb, v, hlast, -, -⟩ := hc.scored
      obtain ⟨o, ho, hiff⟩ := mainHit_spec cosine h hf query channel hlast
      refine ⟨(hit.atomId, emb), (s.byId.get?_eq_some_iff _ _).mp hlast, ?_⟩
      show s.mainHit cosine query channel f hit.atomId emb = _
      rw [ho, (hiff hit).mpr ⟨rfl, hc⟩]
  · intro k
    rw [searchMain, hrows]
    rfl

/-- In either mode the answer is the first `k` candidates. -/
theorem searchIn_spec (h : s.Sound) (hf : f.Timed) (ha : Answerable s f) (query : Query)
    (channel : Channel) :
    ∃ hits : List (ScoredAtom Score), hits.Nodup ∧
      (∀ hit, hit ∈ hits ↔ Candidate cosine s.store s.byId.get? query channel f hit) ∧
      ∀ full k, s.searchIn cosine full query k channel f = .ok (topRanked rank k.toNat hits) := by
  obtain ⟨hits, hnodup, hlen, hmem, hmain⟩ := searchMain_spec cosine h hf query channel
  obtain ⟨buffered, hbuffer, hin⟩ := searchBuffer_spec cosine h hf ha query channel
  refine ⟨hits, hnodup, hmem, ?_⟩
  intro full k
  have hinj : ∀ x ∈ hits, ∀ y ∈ hits, rank x = rank y → x = y := by
    intro x hx y hy hrank
    have hid : x.atomId = y.atomId := congrArg (fun r => (ofLex r).2) hrank
    exact ((hmem x).mp hx).unique cosine ((hmem y).mp hy) hid
  obtain ⟨m, hm, hk⟩ : ∃ m, (if full then max k.toNat s.byId.items.length else k.toNat) = m ∧
      k.toNat ≤ m := by
    refine ⟨_, rfl, ?_⟩
    split_ifs
    · exact le_max_left _ _
    · exact le_refl _
  have hunion : mergeHits (topRanked rank m hits) buffered k = topRanked rank k.toNat hits := by
    have hall : ∀ x ∈ topRanked rank m hits ++ buffered, x ∈ hits := by
      intro x hx
      obtain hx | hx := List.mem_append.mp hx
      · exact mem_of_topRanked hx
      · exact (hmem x).mpr (hin x hx)
    obtain ⟨hvnodup, hvalues⟩ := keepBest_values (topRanked rank m hits ++ buffered)
      (fun x hx y hy => ((hmem x).mp (hall x hx)).unique cosine ((hmem y).mp (hall y hy)))
    apply topRanked_part hnodup hvnodup (fun x hx => hall x ((hvalues x).mp hx)) hinj
    intro x hx
    apply (hvalues x).mpr
    apply List.mem_append_left
    rw [← topRanked_take hk] at hx
    exact List.mem_of_mem_take hx
  unfold searchIn
  dsimp only
  rw [hm, hmain m]
  show (if _ then _ else _) = _
  split_ifs
  · exact congrArg Except.ok (topRanked_take hk)
  · rw [hbuffer]
    exact congrArg Except.ok hunion

end MemoryEmbeddingIndex

open MemoryEmbeddingIndex

theorem new_sound (store : IndexedStore)
    (hstore : ∀ id a, store.getAtom id = some a → a.atomId = id ∧ ∃ iso, toIsoZ a.tStart = .ok iso)
    (ann : AnnSettings) (requireJoint : Bool) :
    (new store ann requireJoint : MemoryEmbeddingIndex Vec).Sound :=
  ⟨fun id a ha => (hstore id a ha).1, fun id a ha => (hstore id a ha).2,
    fun _ _ h => (nomatch h), fun _ _ h => (nomatch h), fun _ _ => rfl, fun _ _ h => (nomatch h),
    fun _ _ _ h => (nomatch h)⟩

variable [LinearOrder Score] [PyCoerce]

/-- A search after any run gives the first `k` of the brute force ranking, in full and in hybrid
mode. -/
theorem search_is_brute_force (store : IndexedStore)
    (hstore : ∀ id a, store.getAtom id = some a → a.atomId = id ∧ ∃ iso, toIsoZ a.tStart = .ok iso)
    (ann : AnnSettings) (requireJoint : Bool) (calls : List (IndexCall Vec))
    (hc : Along stepIndex Steady (new store ann requireJoint) calls) (query : Query)
    (channel : Channel) (f : SearchFilters) (hf : f.Timed)
    (ha : Answerable (run stepIndex (new store ann requireJoint) calls) f) :
    ∃ hits : List (ScoredAtom Score), hits.Nodup ∧
      (∀ hit, hit ∈ hits ↔ Candidate cosine
        (run stepIndex (new store ann requireJoint) calls).store
        (lastAccepted (acceptedAlong (new store ann requireJoint) calls)) query channel f hit) ∧
      (∀ full k, (run stepIndex (new store ann requireJoint) calls).searchIn cosine full query k
        channel f = .ok (topRanked rank k.toNat hits)) ∧
      ∀ request k mono,
        (run stepIndex (new store ann requireJoint) calls).resolveChannel request = some channel →
        (run stepIndex (new store ann requireJoint) calls).search cosine query k request f mono =
          .ok (topRanked rank k.toNat hits) := by
  have hstart := @new_sound Vec store hstore ann requireJoint
  have hsound := run_sound _ calls hc hstart
  obtain ⟨hits, hnodup, hmem, hin⟩ := searchIn_spec cosine hsound hf ha query channel
  have hlast : (run stepIndex (new store ann requireJoint) calls).byId.get? =
      lastAccepted (acceptedAlong (new store ann requireJoint) calls) := by
    funext id
    rw [run_byId _ calls hc hstart id]
    exact Option.or_none
  rw [hlast] at hmem
  refine ⟨hits, hnodup, hmem, hin, ?_⟩
  intro request k mono hrequest
  rw [search, hrequest]
  exact hin _ k

end Search

section Sample

open MemoryEmbeddingIndex

/-- A vector that is zero or not, and its cosine with any query. -/
def indexedCosine (_ : Unit) (nonzero : Bool) : Option Nat := if nonzero then some 1 else none

def indexedAtom : Atom :=
  { atomId := "a", tStart := "2026-01-01T00:00:00Z", kind := "observation"
    momentId := some "m", embeddingStatus := "pending" }

def indexedCalls : List (IndexCall Bool) :=
  [.putAtom indexedAtom, .upsert { atomId := "a", embJoint := some true } "now" false]

def indexedStart : MemoryEmbeddingIndex Bool := new ⟨defaultMemorySettings, .empty⟩ {} false

/-- A deleted atom is still found, and a ready atom with a zero vector is not. -/
theorem search_is_not_over_stored_atoms :
    (¬ ∀ (calls : List (IndexCall Bool)) (k : Int) (hits : List (ScoredAtom Nat)),
        (@run _ _ (@stepIndex Bool basicCoerce) indexedStart calls).search indexedCosine () k
          (.channel .joint) {} 0 = .ok hits →
        ∀ hit ∈ hits, ∃ a, (@run _ _ (@stepIndex Bool basicCoerce) indexedStart calls).store.getAtom
          hit.atomId = some a) ∧
      ¬ ∀ (calls : List (IndexCall Bool)) (hits : List (ScoredAtom Nat)) (a : Atom)
        (emb : EmbeddingSet Bool),
        (@run _ _ (@stepIndex Bool basicCoerce) indexedStart calls).search indexedCosine () 1
          (.channel .joint) {} 0 = .ok hits →
        (@run _ _ (@stepIndex Bool basicCoerce) indexedStart calls).store.getAtom "a" = some a →
        a.embeddingStatus = "ready" →
        lastAccepted (@acceptedAlong Bool basicCoerce indexedStart calls) "a" = some emb →
        emb.embJoint.isSome → hits ≠ [] := by
  constructor
  · intro hstored
    obtain ⟨a, ha⟩ := hstored (indexedCalls ++ [.deleteAtom "a"]) 1 [⟨"a", 1, .joint, none⟩] rfl _
      (List.mem_singleton.mpr rfl)
    have hnone : (@run _ _ (@stepIndex Bool basicCoerce) indexedStart
        (indexedCalls ++ [.deleteAtom "a"])).store.getAtom "a" = none := rfl
    rw [hnone] at ha
    cases ha
  · intro hfound
    exact hfound
      [.putAtom indexedAtom, .upsert { atomId := "a", embJoint := some false } "now" false]
      [] _ _ rfl rfl rfl rfl rfl rfl

/-- The cosine of a vector on a line with any query. -/
def lineCosine (_ : Unit) (v : Nat) : Option Nat := if v = 0 then none else some v

def lineAtom (id kind : String) : Atom := { indexedAtom with atomId := id, kind }

def lineSet (id : String) (v : Nat) : EmbeddingSet Nat := { atomId := id, embJoint := some v }

/-- Three atoms are encoded, one of them again; the buffer is dropped by an optimize and an atom
is put again. -/
def lineCalls : List (IndexCall Nat) :=
  [.putAtom (lineAtom "a" "observation"), .putAtom (lineAtom "b" "observation"),
    .putAtom (lineAtom "c" "moment_summary"), .upsert (lineSet "a" 1) "now" false,
    .upsert (lineSet "b" 3) "now" false, .upsert (lineSet "c" 4) "now" false,
    .upsert (lineSet "a" 5) "now" false, .optimize "later" 0,
    .putAtom (lineAtom "d" "observation"), .upsert (lineSet "d" 2) "now" false]

def lineStart : MemoryEmbeddingIndex Nat := new ⟨defaultMemorySettings, .empty⟩ {} false

def lineFilters : SearchFilters :=
  { kinds := some ["observation"], tStart := some "2026-01-01T00:00:00Z" }

attribute [local instance] basicCoerce

def lineIndex : MemoryEmbeddingIndex Nat := run stepIndex lineStart lineCalls

theorem lineCalls_steady : Along stepIndex Steady lineStart lineCalls := by
  refine ⟨⟨⟨_, rfl⟩, fun _ h => (nomatch h)⟩, ⟨⟨_, rfl⟩, fun _ h => (nomatch h)⟩,
    ⟨⟨_, rfl⟩, fun _ h => (nomatch h)⟩, trivial, trivial, trivial, trivial, trivial,
    ⟨⟨_, rfl⟩, fun e h => ?_⟩, trivial, trivial⟩
  have hnone : (lineCalls.take 8 |> run stepIndex lineStart).fresh.buffer.get "d" = none := rfl
  exact nomatch hnone.symm.trans h

theorem lineIndex_answerable : Answerable lineIndex lineFilters := by
  refine .inr fun id e h => ?_
  have hall : ∀ p ∈ lineIndex.fresh.buffer.byId.items, (lineIndex.store.getAtom p.1).isSome := by
    decide +kernel
  exact Option.isSome_iff_exists.mp (hall (id, e) ((Dict.get?_eq_some_iff _ id e).mp h))

/-- The two best of the observations, the last vector of an atom counting, in both modes. -/
theorem search_is_brute_force_sample :
    (∃ hits : List (ScoredAtom Nat), hits.Nodup ∧
      (∀ hit, hit ∈ hits ↔ Candidate lineCosine lineIndex.store
        (lastAccepted (acceptedAlong lineStart lineCalls)) () .joint lineFilters hit) ∧
      (∀ full k, lineIndex.searchIn lineCosine full () k .joint lineFilters =
        .ok (topRanked rank k.toNat hits)) ∧
      ∀ request k mono, lineIndex.resolveChannel request = some .joint →
        lineIndex.search lineCosine () k request lineFilters mono =
          .ok (topRanked rank k.toNat hits)) ∧
    ∀ full, (lineIndex.searchIn lineCosine full () 2 .joint lineFilters).map
      (fun hits => hits.map fun h => (h.atomId, h.score)) = .ok [("a", 5), ("b", 3)] := by
  refine ⟨?_, by decide +kernel⟩
  exact search_is_brute_force lineCosine ⟨defaultMemorySettings, .empty⟩
    (fun _ _ h => (nomatch h)) {} false lineCalls lineCalls_steady () .joint lineFilters
    ⟨fun _ h => ⟨_, by cases h; rfl⟩, fun _ h => (nomatch h)⟩ lineIndex_answerable

end Sample

end Elyra.Memory
