import Elyra.Memory.EpisodicItems
import Mathlib.Algebra.BigOperators.Group.List.Basic
import Mathlib.Algebra.Order.BigOperators.Group.List
import Mathlib.Data.List.Perm.Subperm

namespace Elyra.Memory

/-- The items show no atom that the others do not show, and none more often. -/
def Lessened (new old : List EpisodicItem) : Prop := (allAtomIds new).Subperm (allAtomIds old)

theorem Lessened.refl (items : List EpisodicItem) : Lessened items items := List.Subperm.refl _

theorem Lessened.trans {a b c : List EpisodicItem} (h : Lessened a b) (k : Lessened b c) :
    Lessened a c :=
  List.Subperm.trans h k

theorem Lessened.of_sublist {new old : List EpisodicItem} (h : new.Sublist old) :
    Lessened new old :=
  (h.flatMap EpisodicItem.atomIds).subperm

theorem Lessened.nodup {new old : List EpisodicItem} (h : Lessened new old)
    (hold : (allAtomIds old).Nodup) : (allAtomIds new).Nodup := by
  obtain ⟨ids, hperm, hsub⟩ := h
  exact hperm.nodup_iff.mp (hold.sublist hsub)

section Blocks

variable {atomId : String} {item item' : EpisodicItem}

theorem withoutAtom_ids (h : withoutAtom atomId item = some item') :
    item'.atomIds.Subperm item.atomIds := by
  cases item with
  | summary tip =>
    rw [← Option.some.inj h]
  | priorMoment mid first rest =>
    have hperm := atomIds_rebuild h
    have hsub := (List.filter_sublist (p := fun a => decide (a.atomId ≠ atomId))
      (l := first :: rest)).map Snapshot.atomId
    exact hperm.subperm.trans hsub.subperm

theorem length_intercalate (sep line : List Char) (lines : List (List Char)) :
    (sep.intercalate (line :: lines)).length + sep.length =
      ((line :: lines).map fun l => sep.length + l.length).sum := by
  induction lines generalizing line with
  | nil => simp [List.intercalate, Nat.add_comm]
  | cons next lines ih =>
    rw [List.intercalate_cons_cons, List.map_cons, List.sum_cons, ← ih next, List.length_append,
      List.length_append]
    omega

/-- The length of a block: its lines and the breaks between them. -/
theorem length_blockText (a : Snapshot) (rest : List Snapshot) :
    (blockText (a :: rest)).length + 1 =
      ((a :: rest).map fun b => 1 + b.line.length).sum := by
  have hlines := length_intercalate ['\n'] a.line.toList
    (rest.map fun b => b.line.toList)
  rw [← List.map_cons (f := fun b : Snapshot => b.line.toList), List.map_map] at hlines
  rw [blockText, ← String.length_toList, String.toList_intercalate, List.map_map]
  exact hlines

theorem estimateTokens_mono {s t : String} (h : s.length ≤ t.length) :
    estimateTokens s ≤ estimateTokens t :=
  Int.ediv_le_ediv (by decide) (Int.ofNat_le.mpr h)

theorem line_pos (a : Snapshot) : 0 < a.line.length := by
  have hclose : ") ".length = 2 := by decide
  rw [Snapshot.line, String.length_append, String.length_append, hclose]
  omega

theorem blockText_ne_empty (a : Snapshot) (rest : List Snapshot) :
    blockText (a :: rest) ≠ "" := by
  intro hempty
  have hlen := length_blockText a rest
  have hline := line_pos a
  rw [hempty, List.map_cons, List.sum_cons] at hlen
  have hzero : "".length = 0 := rfl
  omega

/-- Without an atom a block costs no more. -/
theorem withoutAtom_tokens (h : withoutAtom atomId item = some item') :
    item'.tokenEstimate ≤ item.tokenEstimate := by
  cases item with
  | summary tip =>
    exact le_of_eq (congrArg _ (Option.some.inj h).symm)
  | priorMoment mid first rest =>
    rw [withoutAtom, rebuildPriorMomentItem] at h
    have hperm := sortBy_perm Snapshot.chronoKey
      ((first :: rest).filter fun a => a.atomId ≠ atomId)
    cases hsorted : sortBy Snapshot.chronoKey
        ((first :: rest).filter fun a => a.atomId ≠ atomId) with
    | nil =>
      rw [hsorted] at h
      cases h
    | cons a others =>
      rw [hsorted] at h hperm
      rw [← Option.some.inj h]
      have hsum := (hperm.map fun b => 1 + b.line.length).sum_eq
      have hless : (((first :: rest).filter fun a => a.atomId ≠ atomId).map
          fun b => 1 + b.line.length).sum ≤
          ((first :: rest).map fun b => 1 + b.line.length).sum :=
        (List.filter_sublist.map _).sum_le_sum (fun _ _ => Nat.zero_le _)
      have hnew := length_blockText a others
      have hold := length_blockText first rest
      apply estimateTokens_mono
      rw [if_neg (blockText_ne_empty _ _), if_neg (blockText_ne_empty _ _), String.length_append,
        String.length_append (s := _ ++ "\n")]
      omega

end Blocks

section Working

variable {cap : Int} {idx : Nat} {atomId : String}

/-- The items of a working list. -/
def Work.live (work : Work) : List EpisodicItem := work.filterMap id

theorem live_some (items : List EpisodicItem) : Work.live (items.map some) = items := by
  rw [Work.live, List.filterMap_map]
  exact List.filterMap_some

theorem total_some (items : List EpisodicItem) :
    Work.total (items.map some) = .ok (totalTokens items) := by
  have hall : (items.map some).mapM id = some items := by
    induction items with
    | nil => rfl
    | cons item items ih => simp [ih]
  rw [Work.total, hall]

/-- A list with a block that was set to `None` has no total. -/
theorem total_none {work : Work} (h : none ∈ work) : work.total = .error .noTokenEstimate := by
  have hall : work.mapM id = none := by
    induction work with
    | nil => cases h
    | cons item work ih =>
      cases item with
      | none => rfl
      | some item =>
        obtain hhead | htail := List.mem_cons.mp h
        · cases hhead
        · simp [ih htail]
  rw [Work.total, hall]

theorem lessened_dropAtom (work : Work) (idx : Nat) (atomId : String) :
    Lessened (work.dropAtom idx atomId).live work.live := by
  induction work generalizing idx with
  | nil =>
    rw [Work.dropAtom, List.modify_nil]
    exact Lessened.refl _
  | cons item work ih =>
    cases idx with
    | zero =>
      cases item with
      | none => exact Lessened.refl _
      | some item =>
        show Lessened (Work.live (withoutAtom atomId item :: work)) (item :: Work.live work)
        cases hrest : withoutAtom atomId item with
        | none => exact Lessened.of_sublist (List.sublist_cons_self _ _)
        | some item' =>
          exact List.Subperm.append (withoutAtom_ids hrest) (List.Subperm.refl _)
    | succ idx =>
      have hrest := ih idx
      cases item with
      | none => exact hrest
      | some item => exact List.Subperm.append (List.Subperm.refl _) hrest

/-- The items without one atom; `none` when its block has no other. -/
def dropOne (items : List EpisodicItem) (d : Nat × String) : Option (List EpisodicItem) :=
  match items[d.1]? with
  | none => some items
  | some item => (withoutAtom d.2 item).map (items.set d.1)

theorem dropAtom_some {items items' : List EpisodicItem} {d : Nat × String}
    (h : dropOne items d = some items') :
    Work.dropAtom (items.map some) d.1 d.2 = items'.map some := by
  rw [dropOne] at h
  cases hitem : items[d.1]? with
  | none =>
    rw [hitem] at h
    rw [← Option.some.inj h, Work.dropAtom, List.modify_eq_self]
    simpa using hitem
  | some item =>
    rw [hitem] at h
    obtain ⟨item', hrest, rfl⟩ := Option.map_eq_some_iff.mp h
    rw [Work.dropAtom, List.modify_eq_set_getElem?, List.getElem?_map, hitem, List.map_set]
    show (items.map some).set d.1 (withoutAtom d.2 item) = _
    rw [hrest]

theorem dropAtom_none {items : List EpisodicItem} {d : Nat × String}
    (h : dropOne items d = none) :
    none ∈ Work.dropAtom (items.map some) d.1 d.2 := by
  rw [dropOne] at h
  cases hitem : items[d.1]? with
  | none =>
    rw [hitem] at h
    cases h
  | some item =>
    rw [hitem, Option.map_eq_none_iff] at h
    obtain ⟨hlt, -⟩ := List.getElem?_eq_some_iff.mp hitem
    rw [Work.dropAtom, List.modify_eq_set_getElem?, List.getElem?_map, hitem]
    show none ∈ (items.map some).set d.1 (withoutAtom d.2 item)
    rw [h]
    exact List.mem_set (by simpa using hlt) _

theorem dropOne_tokens {items items' : List EpisodicItem} {d : Nat × String}
    (h : dropOne items d = some items') : totalTokens items' ≤ totalTokens items := by
  rw [dropOne] at h
  cases hitem : items[d.1]? with
  | none =>
    rw [hitem] at h
    rw [Option.some.inj h]
  | some item =>
    rw [hitem] at h
    obtain ⟨item', hrest, rfl⟩ := Option.map_eq_some_iff.mp h
    obtain ⟨hlt, hget⟩ := List.getElem?_eq_some_iff.mp hitem
    have hsplit : items = items.take d.1 ++ item :: items.drop (d.1 + 1) := by
      rw [← hget, List.getElem_cons_drop, List.take_append_drop]
    have hcost := withoutAtom_tokens hrest
    rw [List.set_eq_take_append_cons_drop, if_pos hlt]
    conv_rhs => rw [hsplit]
    simp only [totalTokens, List.map_append, List.map_cons, List.sum_append, List.sum_cons]
    omega

theorem foldlM_dropOne_tokens {drops : List (Nat × String)} {items items' : List EpisodicItem}
    (h : drops.foldlM dropOne items = some items') : totalTokens items' ≤ totalTokens items := by
  induction drops generalizing items with
  | nil => rw [Option.some.inj h]
  | cons d drops ih =>
    rw [List.foldlM_cons] at h
    obtain ⟨next, hnext, h⟩ := Option.bind_eq_some_iff.mp h
    exact le_trans (ih h) (dropOne_tokens hnext)

/-- Of the atoms to drop one is the last of its block, another one comes after it, and without
those before it the items are still over the cap. -/
def StrandsOn (cap : Int) (drops : List (Nat × String)) (items : List EpisodicItem) : Prop :=
  ∃ before d e after work, drops = before ++ d :: e :: after ∧
    before.foldlM dropOne items = some work ∧ cap < totalTokens work ∧ dropOne work d = none

theorem strandsOn_cons_none {d : Nat × String} {drops : List (Nat × String)}
    {items : List EpisodicItem} (hcap : cap < totalTokens items) (h : dropOne items d = none) :
    StrandsOn cap (d :: drops) items ↔ drops ≠ [] := by
  constructor
  · rintro ⟨before, c, e, after, work, hdrops, -, -, -⟩ rfl
    have hlen := congrArg List.length hdrops
    simp at hlen
    omega
  · intro hne
    obtain ⟨e, after, rfl⟩ := List.exists_cons_of_ne_nil hne
    exact ⟨[], d, e, after, items, rfl, rfl, hcap, h⟩

theorem strandsOn_cons_some {d : Nat × String} {drops : List (Nat × String)}
    {items items' : List EpisodicItem} (h : dropOne items d = some items') :
    StrandsOn cap (d :: drops) items ↔ StrandsOn cap drops items' := by
  constructor
  · rintro ⟨before, c, e, after, work, hdrops, hwork, hover, hlast⟩
    cases before with
    | nil =>
      rw [← (List.cons.inj hdrops).1, ← Option.some.inj hwork, h] at hlast
      cases hlast
    | cons b before =>
      obtain ⟨rfl, hrest⟩ := List.cons.inj hdrops
      rw [List.foldlM_cons, h] at hwork
      exact ⟨before, c, e, after, work, hrest, hwork, hover, hlast⟩
  · rintro ⟨before, c, e, after, work, rfl, hwork, hover, hlast⟩
    refine ⟨d :: before, c, e, after, work, rfl, ?_, hover, hlast⟩
    rw [List.foldlM_cons, h]
    exact hwork

/-- The loop raises exactly when a block becomes empty too early. -/
theorem dropLoop_raises (cap : Int) (drops : List (Nat × String)) (items : List EpisodicItem) :
    dropLoop cap drops (items.map some) = .error .noTokenEstimate ∧ StrandsOn cap drops items ∨
      (∃ work, dropLoop cap drops (items.map some) = .ok work ∧ Lessened work.live items) ∧
        ¬StrandsOn cap drops items := by
  induction drops generalizing items with
  | nil =>
    refine .inr ⟨⟨items.map some, rfl, by rw [live_some]; exact Lessened.refl _⟩, ?_⟩
    rintro ⟨before, d, e, after, work, hdrops, -⟩
    simp at hdrops
  | cons d drops ih =>
    have hstep : dropLoop cap (d :: drops) (items.map some) =
        if totalTokens items ≤ cap then .ok (items.map some)
        else dropLoop cap drops (Work.dropAtom (items.map some) d.1 d.2) := by
      rw [dropLoop, total_some]
      show (if totalTokens items ≤ cap then _ else _) = _
      split_ifs <;> rfl
    have hless := lessened_dropAtom (items.map some) d.1 d.2
    rw [live_some] at hless
    rw [hstep]
    by_cases hcap : totalTokens items ≤ cap
    · rw [if_pos hcap]
      refine .inr ⟨⟨items.map some, rfl, by rw [live_some]; exact Lessened.refl _⟩, ?_⟩
      rintro ⟨before, c, e, after, work, -, hwork, hover, -⟩
      have := foldlM_dropOne_tokens hwork
      omega
    · rw [if_neg hcap]
      cases hone : dropOne items d with
      | some items' =>
        rw [strandsOn_cons_some hone, dropAtom_some hone]
        rw [dropAtom_some hone, live_some] at hless
        obtain hraises | ⟨⟨work, hrun, hwork⟩, hnot⟩ := ih items'
        · exact .inl hraises
        · exact .inr ⟨⟨work, hrun, hwork.trans hless⟩, hnot⟩
      | none =>
        rw [strandsOn_cons_none (not_le.mp hcap) hone]
        cases drops with
        | nil => exact .inr ⟨⟨_, rfl, hless⟩, fun hne => hne rfl⟩
        | cons e after =>
          refine .inl ⟨?_, List.cons_ne_nil _ _⟩
          rw [dropLoop, total_none (dropAtom_none hone)]
          rfl

/-- The drop of the tool and model atoms empties a block too early. -/
def Strands (cap : Int) (items : List EpisodicItem) : Prop :=
  StrandsOn cap (droppable items) items

theorem dropRawKinds_raises (cap : Int) (items : List EpisodicItem) :
    dropRawKinds cap items = .error .noTokenEstimate ∧ Strands cap items ∨
      (∃ left, dropRawKinds cap items = .ok left ∧ Lessened left items) ∧ ¬Strands cap items := by
  obtain ⟨hrun, hstrands⟩ | ⟨⟨work, hrun, hwork⟩, hnot⟩ :=
    dropLoop_raises cap (droppable items) items
  · refine .inl ⟨?_, hstrands⟩
    rw [dropRawKinds, hrun]
    rfl
  · refine .inr ⟨⟨work.live, ?_, hwork⟩, hnot⟩
    rw [dropRawKinds, hrun]
    rfl

end Working

end Elyra.Memory
