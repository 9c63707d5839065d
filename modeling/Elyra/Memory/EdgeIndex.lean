import Elyra.Framework.Sorted
import Elyra.Memory.Edges

namespace Elyra.Memory

section Groups

/-- The ids filed under an atom. -/
def groupOf (groups : Dict String (List String)) (atom : String) : List String :=
  (groups.get? atom).getD []

def dropFrom (groups : Dict String (List String)) (atom id : String) :
    Dict String (List String) :=
  match groups.get? atom with
  | none => groups
  | some ids => if ids.erase id = [] then groups.pop atom else groups.set atom (ids.erase id)

/-- `setdefault(atom, [])`, then append unless the id is in. -/
def addTo (groups : Dict String (List String)) (atom id : String) : Dict String (List String) :=
  let ids := groupOf groups atom
  groups.set atom (if id ∈ ids then ids else ids ++ [id])

theorem groupOf_dropFrom (g : Dict String (List String)) (a b id : String) :
    groupOf (dropFrom g a id) b = if a = b then (groupOf g b).erase id else groupOf g b := by
  unfold dropFrom groupOf
  cases hg : g.get? a with
  | none =>
    by_cases h : a = b
    · subst h
      simp [hg]
    · simp [h]
  | some ids =>
    by_cases h : a = b
    · subst h
      by_cases he : ids.erase id = []
      · simp only [he, if_true, Dict.get?_pop, Option.getD_none, hg, Option.getD_some]
      · simp only [he, if_false, Dict.get?_set_self, if_true, hg, Option.getD_some]
    · by_cases he : ids.erase id = []
      · simp only [he, if_true, Dict.get?_pop, h, if_false]
      · simp only [he, if_false, Dict.get?_set_ne _ _ h, h]

theorem groupOf_addTo (g : Dict String (List String)) (a b id : String) :
    groupOf (addTo g a id) b =
      if a = b then (if id ∈ groupOf g b then groupOf g b else groupOf g b ++ [id])
      else groupOf g b := by
  rw [addTo]
  by_cases h : a = b
  · subst h
    rw [if_pos rfl, groupOf, Dict.get?_set_self, Option.getD_some]
  · rw [if_neg h, groupOf, Dict.get?_set_ne _ _ h, groupOf]

/-- A filing of the ids of a store under one atom of each edge. -/
structure Files (g : Dict String (List String)) (find : String → Option DurableEdge)
    (atom : DurableEdge → String) : Prop where
  mem : ∀ a i, i ∈ groupOf g a ↔ ∃ e, find i = some e ∧ atom e = a
  nodup : ∀ a, (groupOf g a).Nodup

variable {g : Dict String (List String)} {find find' : String → Option DurableEdge}
  {atom : DurableEdge → String}

theorem Files.drop (h : Files g find atom) (id : String) (old : DurableEdge)
    (hold : find id = some old)
    (hfind : ∀ j, find' j = if j = id then none else find j) :
    Files (dropFrom g (atom old) id) find' atom where
  mem a i := by
    rw [groupOf_dropFrom, hfind]
    have ha := h.mem a i
    by_cases hi : i = id
    · subst hi
      rw [if_pos rfl]
      by_cases hatom : atom old = a
      · subst hatom
        simp [(h.nodup (atom old)).not_mem_erase]
      · rw [if_neg hatom, ha, hold]
        simp [hatom]
    · rw [if_neg hi]
      by_cases hatom : atom old = a
      · rw [if_pos hatom, List.mem_erase_of_ne hi]
        exact ha
      · rw [if_neg hatom]
        exact ha
  nodup a := by
    rw [groupOf_dropFrom]
    split_ifs
    · exact (h.nodup a).erase id
    · exact h.nodup a

theorem Files.add (h : Files g find atom) (e : DurableEdge)
    (hold : ∀ f, find e.edgeId = some f → atom f = atom e)
    (hfind : ∀ j, find' j = if j = e.edgeId then some e else find j) :
    Files (addTo g (atom e) e.edgeId) find' atom where
  mem a i := by
    rw [groupOf_addTo, hfind]
    have ha := h.mem a i
    by_cases hi : i = e.edgeId
    · subst hi
      by_cases hatom : atom e = a
      · subst hatom
        rw [if_pos rfl, if_pos rfl]
        split_ifs with hm <;> simp [hm]
      · rw [if_neg hatom, ha, if_pos rfl]
        constructor
        · intro hex
          obtain ⟨f, hf, hfa⟩ := hex
          exact absurd ((hold f hf).symm.trans hfa) hatom
        · intro hex
          obtain ⟨f, hf, hfa⟩ := hex
          rw [← Option.some.inj hf] at hfa
          exact absurd hfa hatom
    · rw [if_neg hi]
      by_cases hatom : atom e = a
      · rw [if_pos hatom]
        split_ifs with hm
        · exact ha
        · rw [List.mem_append, List.mem_singleton, ha]
          simp [hi]
      · rw [if_neg hatom]
        exact ha
  nodup a := by
    rw [groupOf_addTo]
    split_ifs with hatom hm
    · exact h.nodup a
    · rw [List.nodup_append]
      refine ⟨h.nodup a, by simp, ?_⟩
      intro x hx y hy
      rw [List.mem_singleton.mp hy]
      exact fun he => hm (he ▸ hx)
    · exact h.nodup a

end Groups

/-- The four maps both stores keep in memory. -/
structure EdgeIndex where
  byId : Dict String DurableEdge
  bySrc : Dict String (List String)
  byDst : Dict String (List String)
  byKey : Dict EdgeKey String

/-- The edges and limit of a listing: `kinds` and `limit` are optional. -/
def filterEdges (edges : List DurableEdge) (kinds : Option (List String)) (limit : Option Int) :
    List DurableEdge :=
  let kept := match kinds with
    | none => edges
    | some allow => edges.filter (fun e => e.edgeKind ∈ allow)
  let sorted := sortBy DurableEdge.fifoSortKey kept
  match limit with
  | none => sorted
  | some n => sorted.take n.toNat

namespace EdgeIndex

def empty : EdgeIndex := ⟨.empty, .empty, .empty, .empty⟩

def find (ix : EdgeIndex) (id : String) : Option DurableEdge := ix.byId.get? id

def edges (ix : EdgeIndex) : List DurableEdge := ix.byId.values

def forget (ix : EdgeIndex) (id : String) (old : DurableEdge) : EdgeIndex :=
  { byId := ix.byId.pop id
    byKey := if ix.byKey.get? old.identityKey = some id then ix.byKey.pop old.identityKey
      else ix.byKey
    bySrc := dropFrom ix.bySrc old.srcAtomId id
    byDst := dropFrom ix.byDst old.dstAtomId id }

def indexRemove (ix : EdgeIndex) (id : String) : EdgeIndex :=
  match ix.find id with
  | none => ix
  | some old => ix.forget id old

/-- Drop the holder of the key when it is another edge. -/
def dropPrior (ix : EdgeIndex) (e : DurableEdge) : EdgeIndex :=
  match ix.byKey.get? e.identityKey with
  | some prior => if prior ≠ e.edgeId then ix.indexRemove prior else ix
  | none => ix

/-- Drop the edge of the same id when it sits under another key. -/
def dropMoved (ix : EdgeIndex) (e : DurableEdge) : EdgeIndex :=
  match ix.find e.edgeId with
  | some old => if old.identityKey ≠ e.identityKey then ix.indexRemove e.edgeId else ix
  | none => ix

def write (ix : EdgeIndex) (e : DurableEdge) : EdgeIndex :=
  { byId := ix.byId.set e.edgeId e
    byKey := ix.byKey.set e.identityKey e.edgeId
    bySrc := addTo ix.bySrc e.srcAtomId e.edgeId
    byDst := addTo ix.byDst e.dstAtomId e.edgeId }

def indexPut (ix : EdgeIndex) (e : DurableEdge) : EdgeIndex :=
  ((ix.dropPrior e).dropMoved e).write e

def listEdgesFrom (ix : EdgeIndex) (src : String) (kinds : Option (List String))
    (limit : Option Int) : List DurableEdge :=
  filterEdges ((groupOf ix.bySrc src).filterMap ix.find) kinds limit

def listEdgesTo (ix : EdgeIndex) (dst : String) (kinds : Option (List String))
    (limit : Option Int) : List DurableEdge :=
  filterEdges ((groupOf ix.byDst dst).filterMap ix.find) kinds limit

/-- The edge of a key, through the key map. -/
def atKey (ix : EdgeIndex) (key : EdgeKey) : Option DurableEdge :=
  (ix.byKey.get? key).bind ix.find

/-- The other three maps say what the map by id says. -/
structure Coherent (ix : EdgeIndex) : Prop where
  ids : ∀ i e, ix.find i = some e → e.edgeId = i
  keys : ∀ k i, ix.byKey.get? k = some i ↔ ∃ e, ix.find i = some e ∧ e.identityKey = k
  src : Files ix.bySrc ix.find DurableEdge.srcAtomId
  dst : Files ix.byDst ix.find DurableEdge.dstAtomId

theorem coherent_empty : Coherent empty where
  ids i e h := by cases h
  keys k i := by simp [empty, find]
  src := ⟨fun a i => by simp [empty, find, groupOf], fun a => by simp [empty, groupOf]⟩
  dst := ⟨fun a i => by simp [empty, find, groupOf], fun a => by simp [empty, groupOf]⟩

/-- No two edges share a key. -/
theorem Coherent.unique {ix : EdgeIndex} (h : Coherent ix) (e f : DurableEdge)
    (he : ix.find e.edgeId = some e) (hf : ix.find f.edgeId = some f)
    (hk : e.identityKey = f.identityKey) : e = f := by
  have h1 := (h.keys e.identityKey e.edgeId).mpr ⟨e, he, rfl⟩
  have h2 := (h.keys e.identityKey f.edgeId).mpr ⟨f, hf, hk.symm⟩
  have hid : e.edgeId = f.edgeId := Option.some.inj (h1.symm.trans h2)
  rw [hid, hf] at he
  exact (Option.some.inj he).symm

theorem mem_edges {ix : EdgeIndex} (h : Coherent ix) (e : DurableEdge) :
    e ∈ ix.edges ↔ ix.find e.edgeId = some e := by
  rw [edges, Dict.mem_values]
  constructor
  · intro hex
    obtain ⟨i, hi⟩ := hex
    rw [h.ids i e hi]
    exact hi
  · intro he
    exact ⟨e.edgeId, he⟩

@[simp] theorem find_forget (ix : EdgeIndex) (id : String) (old : DurableEdge) (j : String) :
    (ix.forget id old).find j = if j = id then none else ix.find j := by
  rw [find, forget, Dict.get?_pop, find]
  by_cases h : j = id
  · simp [h]
  · simp [h, Ne.symm h]

theorem find_indexRemove (ix : EdgeIndex) (id j : String) :
    (ix.indexRemove id).find j = if j = id then none else ix.find j := by
  unfold indexRemove
  cases hf : ix.find id with
  | none =>
    split_ifs with h
    · rw [h, hf]
    · rfl
  | some old => exact find_forget ix id old j

theorem Coherent.forget {ix : EdgeIndex} (h : Coherent ix) (id : String) (old : DurableEdge)
    (hold : ix.find id = some old) : Coherent (ix.forget id old) where
  ids i e he := by
    rw [find_forget] at he
    split_ifs at he
    exact h.ids i e he
  keys k i := by
    have hkey : ix.byKey.get? old.identityKey = some id := (h.keys _ _).mpr ⟨old, hold, rfl⟩
    have hmap : (ix.forget id old).byKey = ix.byKey.pop old.identityKey := if_pos hkey
    rw [hmap, Dict.get?_pop, find_forget]
    split_ifs with hk hi hi
    · simp
    · subst hk
      have hno : ¬ ∃ e, ix.find i = some e ∧ e.identityKey = old.identityKey := by
        rw [← h.keys, hkey]
        exact fun he => hi (Option.some.inj he).symm
      simp [hno]
    · subst hi
      rw [h.keys, hold]
      simp [hk]
    · exact h.keys k i
  src := h.src.drop id old hold (find_forget ix id old)
  dst := h.dst.drop id old hold (find_forget ix id old)

theorem Coherent.remove {ix : EdgeIndex} (h : Coherent ix) (id : String) :
    Coherent (ix.indexRemove id) := by
  unfold indexRemove
  cases hf : ix.find id with
  | none => exact h
  | some old => exact h.forget id old hf

theorem find_write (ix : EdgeIndex) (e : DurableEdge) (j : String) :
    (ix.write e).find j = if j = e.edgeId then some e else ix.find j := by
  rw [find, write, Dict.get?_set, find]
  by_cases h : j = e.edgeId
  · simp [h]
  · simp [h, Ne.symm h]

theorem Coherent.write {ix : EdgeIndex} (h : Coherent ix) (e : DurableEdge)
    (hid : ∀ f, ix.find e.edgeId = some f → f.identityKey = e.identityKey)
    (hkey : ∀ i, ix.byKey.get? e.identityKey = some i → i = e.edgeId) :
    Coherent (ix.write e) where
  ids i f hf := by
    rw [find_write] at hf
    split_ifs at hf with hi
    · rw [← Option.some.inj hf, hi]
    · exact h.ids i f hf
  keys k i := by
    have hmap : (ix.write e).byKey = ix.byKey.set e.identityKey e.edgeId := rfl
    rw [hmap, Dict.get?_set, find_write]
    split_ifs with hk hi hi
    · simp [hk, hi]
    · subst hk
      have hno : ¬ ∃ f, ix.find i = some f ∧ f.identityKey = e.identityKey := by
        rw [← h.keys]
        exact fun hm => hi (hkey i hm)
      simp only [hno, iff_false, Option.some.injEq]
      exact fun he => hi he.symm
    · subst hi
      rw [h.keys]
      constructor
      · intro hex
        obtain ⟨f, hf, hfk⟩ := hex
        exact absurd ((hid f hf).symm.trans hfk) hk
      · intro hex
        obtain ⟨f, hf, hfk⟩ := hex
        rw [← Option.some.inj hf] at hfk
        exact absurd hfk hk
    · exact h.keys k i
  src := h.src.add e (fun f hf => congrArg Prod.fst (hid f hf)) (find_write ix e)
  dst := h.dst.add e (fun f hf => congrArg (fun k => k.2.1) (hid f hf)) (find_write ix e)

theorem Coherent.dropPrior {ix : EdgeIndex} (h : Coherent ix) (e : DurableEdge) :
    Coherent (ix.dropPrior e) ∧
      (∀ i, (ix.dropPrior e).byKey.get? e.identityKey = some i → i = e.edgeId) ∧
      ∀ j, (ix.dropPrior e).find j =
        if j ≠ e.edgeId ∧ ∃ f, ix.find j = some f ∧ f.identityKey = e.identityKey then none
        else ix.find j := by
  unfold EdgeIndex.dropPrior
  cases hk : ix.byKey.get? e.identityKey with
  | none =>
    have hno : ∀ j, ¬ ∃ f, ix.find j = some f ∧ f.identityKey = e.identityKey := by
      intro j hex
      rw [← h.keys, hk] at hex
      cases hex
    refine ⟨h, ?_, ?_⟩
    · intro i hi
      rw [hk] at hi
      cases hi
    · intro j
      rw [if_neg (fun hc => hno j hc.2)]
  | some prior =>
    have hholder : ∀ j, (∃ f, ix.find j = some f ∧ f.identityKey = e.identityKey) ↔ j = prior := by
      intro j
      rw [← h.keys, hk, Option.some.injEq]
      exact eq_comm
    dsimp only
    by_cases hp : prior = e.edgeId
    · rw [if_neg (not_not.mpr hp)]
      refine ⟨h, ?_, ?_⟩
      · intro i hi
        rw [hk] at hi
        rw [← Option.some.inj hi, hp]
      · intro j
        rw [if_neg]
        intro hc
        exact hc.1 (((hholder j).mp hc.2).trans hp)
    · rw [if_pos hp]
      have hrem := h.remove prior
      refine ⟨hrem, ?_, ?_⟩
      · intro i hi
        obtain ⟨f, hf, hfk⟩ := (hrem.keys e.identityKey i).mp hi
        rw [find_indexRemove] at hf
        split_ifs at hf with hip
        exact absurd ((hholder i).mp ⟨f, hf, hfk⟩) hip
      · intro j
        rw [find_indexRemove]
        by_cases hj : j = prior
        · rw [if_pos hj, if_pos ⟨by rw [hj]; exact hp, (hholder j).mpr hj⟩]
        · rw [if_neg hj, if_neg]
          exact fun hc => hj ((hholder j).mp hc.2)

theorem Coherent.dropMoved {ix : EdgeIndex} (h : Coherent ix) (e : DurableEdge)
    (hkey : ∀ i, ix.byKey.get? e.identityKey = some i → i = e.edgeId) :
    Coherent (ix.dropMoved e) ∧
      (∀ i, (ix.dropMoved e).byKey.get? e.identityKey = some i → i = e.edgeId) ∧
      (∀ f, (ix.dropMoved e).find e.edgeId = some f → f.identityKey = e.identityKey) ∧
      ∀ j, j ≠ e.edgeId → (ix.dropMoved e).find j = ix.find j := by
  unfold EdgeIndex.dropMoved
  cases hf : ix.find e.edgeId with
  | none =>
    refine ⟨h, hkey, ?_, fun j _ => rfl⟩
    intro f hff
    simp only [hf] at hff
    cases hff
  | some old =>
    dsimp only
    by_cases hk : old.identityKey = e.identityKey
    · rw [if_neg (not_not.mpr hk)]
      refine ⟨h, hkey, ?_, fun j _ => rfl⟩
      intro f hff
      rw [hf] at hff
      rw [← Option.some.inj hff]
      exact hk
    · rw [if_pos hk]
      have hrem := h.remove e.edgeId
      refine ⟨hrem, ?_, ?_, ?_⟩
      · intro i hi
        obtain ⟨f, hff, hfk⟩ := (hrem.keys _ _).mp hi
        rw [find_indexRemove] at hff
        split_ifs at hff
        exact hkey i ((h.keys _ _).mpr ⟨f, hff, hfk⟩)
      · intro f hff
        rw [find_indexRemove, if_pos rfl] at hff
        cases hff
      · intro j hj
        rw [find_indexRemove, if_neg hj]

/-- A put keeps the index coherent: the edge is in, another holder of its key is out, nothing
else changes. -/
theorem Coherent.put {ix : EdgeIndex} (h : Coherent ix) (e : DurableEdge) :
    Coherent (ix.indexPut e) := by
  obtain ⟨h1, hkey, -⟩ := h.dropPrior e
  obtain ⟨h2, hkey', hid, -⟩ := h1.dropMoved e hkey
  exact h2.write e hid hkey'

theorem find_indexPut {ix : EdgeIndex} (h : Coherent ix) (e : DurableEdge) (j : String) :
    (ix.indexPut e).find j =
      if j = e.edgeId then some e
      else if ∃ f, ix.find j = some f ∧ f.identityKey = e.identityKey then none
      else ix.find j := by
  obtain ⟨h1, hkey, hfind⟩ := h.dropPrior e
  obtain ⟨-, -, -, hother⟩ := h1.dropMoved e hkey
  rw [indexPut, find_write]
  by_cases hj : j = e.edgeId
  · rw [if_pos hj, if_pos hj]
  · rw [if_neg hj, if_neg hj, hother j hj, hfind j]
    simp [hj]

/-- Nothing is displaced when no other id holds the key. -/
theorem find_indexPut_of_free {ix : EdgeIndex} (h : Coherent ix) (e : DurableEdge)
    (hfree : ∀ i, ix.byKey.get? e.identityKey = some i → i = e.edgeId) (j : String) :
    (ix.indexPut e).find j = if j = e.edgeId then some e else ix.find j := by
  rw [find_indexPut h]
  by_cases hj : j = e.edgeId
  · rw [if_pos hj, if_pos hj]
  · rw [if_neg hj, if_neg hj, if_neg]
    rw [← h.keys]
    exact fun hm => hj (hfree j hm)

/-- The same edges under the same ids. -/
def Same (a b : EdgeIndex) : Prop := ∀ i, a.find i = b.find i

theorem filterEdges_congr (xs ys : List DurableEdge) (kinds : Option (List String))
    (limit : Option Int) (hp : xs.Perm ys)
    (hid : ∀ a ∈ xs, ∀ b ∈ xs, a.edgeId = b.edgeId → a = b) :
    filterEdges xs kinds limit = filterEdges ys kinds limit := by
  have hsort : ∀ zs ws : List DurableEdge, zs.Perm ws →
      (∀ a ∈ zs, ∀ b ∈ zs, a.edgeId = b.edgeId → a = b) →
      sortBy DurableEdge.fifoSortKey zs = sortBy DurableEdge.fifoSortKey ws := by
    intro zs ws hzw hz
    apply sortBy_congr _ _ _ hzw
    intro a ha b hb hab
    exact hz a ha b hb (congrArg (fun k => (ofLex k).2) hab)
  unfold filterEdges
  cases kinds with
  | none => simp only [hsort xs ys hp hid]
  | some allow =>
    have h := hsort _ _ (hp.filter (fun e => decide (e.edgeKind ∈ allow))) (by
      intro a ha b hb
      exact hid a (List.mem_of_mem_filter ha) b (List.mem_of_mem_filter hb))
    simp only [h]

theorem Files.filed_perm {g g' : Dict String (List String)} {ix ix' : EdgeIndex}
    {atom : DurableEdge → String} (h : Files g ix.find atom) (h' : Files g' ix'.find atom)
    (hs : Same ix ix') (a : String) :
    ((groupOf g a).filterMap ix.find).Perm ((groupOf g' a).filterMap ix'.find) := by
  have hfind : ix.find = ix'.find := funext hs
  have hperm : (groupOf g a).Perm (groupOf g' a) := by
    rw [List.perm_ext_iff_of_nodup (h.nodup a) (h'.nodup a)]
    intro i
    rw [h.mem, h'.mem, hfind]
  rw [hfind]
  exact hperm.filterMap _

theorem mem_filed {ix : EdgeIndex} (hc : Coherent ix) {g : Dict String (List String)}
    {atom : DurableEdge → String} (h : Files g ix.find atom) (a : String) (e : DurableEdge) :
    e ∈ (groupOf g a).filterMap ix.find ↔ ix.find e.edgeId = some e ∧ atom e = a := by
  rw [List.mem_filterMap]
  constructor
  · intro hex
    obtain ⟨i, hi, he⟩ := hex
    obtain ⟨f, hf, hfa⟩ := (h.mem a i).mp hi
    rw [he] at hf
    rw [← Option.some.inj hf] at hfa
    rw [hc.ids i e he]
    exact ⟨he, hfa⟩
  · intro he
    exact ⟨e.edgeId, (h.mem a e.edgeId).mpr ⟨e, he.1, he.2⟩, he.1⟩

theorem filed_unique {ix : EdgeIndex} (hc : Coherent ix) {g : Dict String (List String)}
    {atom : DurableEdge → String} (h : Files g ix.find atom) (a : String) :
    ∀ e ∈ (groupOf g a).filterMap ix.find, ∀ f ∈ (groupOf g a).filterMap ix.find,
      e.edgeId = f.edgeId → e = f := by
  intro e he f hf hid
  have h1 := ((mem_filed hc h a e).mp he).1
  have h2 := ((mem_filed hc h a f).mp hf).1
  rw [hid, h2] at h1
  exact (Option.some.inj h1).symm

/-- Equal edges give equal listings. -/
theorem Same.lists {ix ix' : EdgeIndex} (hs : Same ix ix') (h : Coherent ix) (h' : Coherent ix')
    (a : String) (kinds : Option (List String)) (limit : Option Int) :
    ix.listEdgesFrom a kinds limit = ix'.listEdgesFrom a kinds limit ∧
      ix.listEdgesTo a kinds limit = ix'.listEdgesTo a kinds limit :=
  ⟨filterEdges_congr _ _ _ _ (Files.filed_perm h.src h'.src hs a) (filed_unique h h.src a),
    filterEdges_congr _ _ _ _ (Files.filed_perm h.dst h'.dst hs a) (filed_unique h h.dst a)⟩

theorem Same.edges {ix ix' : EdgeIndex} (hs : Same ix ix') (h : Coherent ix) (h' : Coherent ix')
    (e : DurableEdge) : e ∈ ix.edges ↔ e ∈ ix'.edges := by
  rw [mem_edges h, mem_edges h', hs]

theorem Same.atKey {ix ix' : EdgeIndex} (hs : Same ix ix') (h : Coherent ix) (h' : Coherent ix')
    (key : EdgeKey) : ix.atKey key = ix'.atKey key := by
  have hfind : ix.find = ix'.find := funext hs
  have hkey : ix.byKey.get? key = ix'.byKey.get? key := by
    apply Option.ext
    intro i
    rw [h.keys, h'.keys, hfind]
  rw [EdgeIndex.atKey, EdgeIndex.atKey, hkey, hfind]

/-- All outgoing edges of an atom, oldest first. -/
def outgoing (ix : EdgeIndex) (src : String) : List DurableEdge := ix.listEdgesFrom src none none

theorem mem_outgoing {ix : EdgeIndex} (h : Coherent ix) (src : String) (e : DurableEdge) :
    e ∈ ix.outgoing src ↔ ix.find e.edgeId = some e ∧ e.srcAtomId = src := by
  rw [← mem_filed h h.src src e]
  exact mem_sortBy _ _ e

theorem outgoing_ids_nodup {ix : EdgeIndex} (h : Coherent ix) (src : String) :
    ((ix.outgoing src).map DurableEdge.edgeId).Nodup := by
  have hsort : (ix.outgoing src).Perm ((groupOf ix.bySrc src).filterMap ix.find) :=
    sortBy_perm DurableEdge.fifoSortKey _
  have hids : ((groupOf ix.bySrc src).filterMap ix.find).map DurableEdge.edgeId =
      groupOf ix.bySrc src := by
    have hfound : ∀ i ∈ groupOf ix.bySrc src, ∃ e, ix.find i = some e := by
      intro i hi
      obtain ⟨e, he, -⟩ := (h.src.mem src i).mp hi
      exact ⟨e, he⟩
    revert hfound
    induction groupOf ix.bySrc src with
    | nil => simp
    | cons i is ih =>
      intro hfound
      obtain ⟨e, he⟩ := hfound i (by simp)
      rw [List.filterMap_cons_some he, List.map_cons, h.ids i e he,
        ih (fun j hj => hfound j (by simp [hj]))]
  rw [(hsort.map DurableEdge.edgeId).nodup_iff, hids]
  exact h.src.nodup src

theorem outgoing_sorted (ix : EdgeIndex) (src : String) :
    (ix.outgoing src).Pairwise (fun a b => a.fifoSortKey ≤ b.fifoSortKey) :=
  pairwise_sortBy DurableEdge.fifoSortKey _

/-- Lists in FIFO order with distinct ids and the same members are equal. -/
theorem fifo_ext (xs ys : List DurableEdge)
    (hx : xs.Pairwise (fun a b => a.fifoSortKey ≤ b.fifoSortKey))
    (hy : ys.Pairwise (fun a b => a.fifoSortKey ≤ b.fifoSortKey))
    (hxn : (xs.map DurableEdge.edgeId).Nodup) (hyn : (ys.map DurableEdge.edgeId).Nodup)
    (hmem : ∀ e, e ∈ xs ↔ e ∈ ys) : xs = ys := by
  have hperm : xs.Perm ys :=
    (List.perm_ext_iff_of_nodup hxn.of_map hyn.of_map).mpr hmem
  apply hperm.eq_of_pairwise _ hx hy
  intro a b ha hb hab hba
  have hkey : a.fifoSortKey = b.fifoSortKey := le_antisymm hab hba
  have hid : a.edgeId = b.edgeId := congrArg (fun k => (ofLex k).2) hkey
  exact List.inj_on_of_nodup_map hxn ha ((hmem b).mpr hb) hid

/-- A listing of one kind is that part of the whole listing. -/
theorem listEdgesFrom_kind {ix : EdgeIndex} (h : Coherent ix) (src kind : String) :
    ix.listEdgesFrom src (some [kind]) none =
      (ix.outgoing src).filter (fun e => e.edgeKind = kind) := by
  have hlist : ix.listEdgesFrom src (some [kind]) none =
      sortBy DurableEdge.fifoSortKey
        (((groupOf ix.bySrc src).filterMap ix.find).filter (fun e => e.edgeKind ∈ [kind])) := rfl
  have hsub : ((ix.outgoing src).filter (fun e => e.edgeKind = kind)).Sublist (ix.outgoing src) :=
    List.filter_sublist
  have hperm : ((groupOf ix.bySrc src).filterMap ix.find).Perm (ix.outgoing src) :=
    (sortBy_perm DurableEdge.fifoSortKey _).symm
  have hnodup : (((groupOf ix.bySrc src).filterMap ix.find).map DurableEdge.edgeId).Nodup := by
    rw [(hperm.map DurableEdge.edgeId).nodup_iff]
    exact outgoing_ids_nodup h src
  rw [hlist]
  apply fifo_ext
  · exact pairwise_sortBy _ _
  · exact (outgoing_sorted ix src).sublist hsub
  · rw [((sortBy_perm DurableEdge.fifoSortKey _).map DurableEdge.edgeId).nodup_iff]
    exact hnodup.sublist (List.filter_sublist.map _)
  · exact (outgoing_ids_nodup h src).sublist (hsub.map _)
  · intro e
    rw [mem_sortBy, List.mem_filter, List.mem_filter, hperm.mem_iff]
    simp

end EdgeIndex
end Elyra.Memory
