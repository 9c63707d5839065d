import Elyra.Memory.EpisodicKept

namespace Elyra.Memory

section Trim

variable {idx : Nat} {item : EpisodicItem} {k : Snapshot}

/-- The atoms of a block. -/
def EpisodicItem.snapshots : EpisodicItem → List Snapshot
  | .summary _ => []
  | .priorMoment _ first rest => first :: rest

/-- An atom that stays keeps its block. -/
theorem withoutAtom_keeps {atomId : String} (hk : k ∈ item.snapshots) (hne : k.atomId ≠ atomId) :
    ∃ item', withoutAtom atomId item = some item' ∧ k ∈ item'.snapshots := by
  cases item with
  | summary tip => cases hk
  | priorMoment mid first rest =>
    have hfilter : k ∈ (first :: rest).filter fun a => a.atomId ≠ atomId :=
      List.mem_filter.mpr ⟨hk, decide_eq_true hne⟩
    have hmem := (mem_sortBy Snapshot.chronoKey _ k).mpr hfilter
    rw [withoutAtom, rebuildPriorMomentItem]
    cases hsorted : sortBy Snapshot.chronoKey
        ((first :: rest).filter fun a => a.atomId ≠ atomId) with
    | nil =>
      rw [hsorted] at hmem
      cases hmem
    | cons a others =>
      rw [hsorted] at hmem
      exact ⟨.priorMoment mid a others, rfl, hmem⟩

/-- What a loop over the working list leaves: no block is `None`, no atom is new, and the other
blocks are as they were. -/
structure Trimmed (idx : Nat) (current next : List EpisodicItem) : Prop where
  lessened : Lessened next current
  others : ∀ j, j ≠ idx → next[j]? = current[j]?

/-- The loop of one block with an atom that is not dropped. -/
theorem trimLoop_ok (cap : Int) {dropIds : List String} (hstays : k.atomId ∉ dropIds)
    (rest : List Snapshot) (current : List EpisodicItem) (hitem : current[idx]? = some item)
    (hk : k ∈ item.snapshots) :
    ∃ next, trimLoop cap idx dropIds rest (current.map some) = .ok (next.map some) ∧
      Trimmed idx current next := by
  induction rest generalizing current item with
  | nil => exact ⟨current, rfl, Lessened.refl _, fun _ _ => rfl⟩
  | cons a rest ih =>
    rw [trimLoop, total_some]
    by_cases hcap : totalTokens current ≤ cap
    · refine ⟨current, ?_, Lessened.refl _, fun _ _ => rfl⟩
      show (if totalTokens current ≤ cap then _ else _) = _
      rw [if_pos hcap]
      rfl
    · by_cases hdrop : a.atomId ∉ dropIds
      · obtain ⟨next, hrun, hnext⟩ := ih current hitem hk
        refine ⟨next, ?_, hnext⟩
        show (if totalTokens current ≤ cap then _ else _) = _
        rw [if_neg hcap, if_pos hdrop]
        exact hrun
      · have hne : k.atomId ≠ a.atomId := fun heq => hdrop (heq ▸ hstays)
        obtain ⟨item', hrest, hk'⟩ := withoutAtom_keeps hk hne
        obtain ⟨hlt, -⟩ := List.getElem?_eq_some_iff.mp hitem
        have hone : dropOne current (idx, a.atomId) = some (current.set idx item') := by
          rw [dropOne, hitem]
          show Option.map _ (withoutAtom a.atomId item) = _
          rw [hrest]
          rfl
        have hset : (current.set idx item')[idx]? = some item' := by
          rw [List.getElem?_set_self hlt]
        have hless := lessened_dropAtom (current.map some) idx a.atomId
        rw [dropAtom_some hone, live_some, live_some] at hless
        obtain ⟨next, hrun, hnext⟩ := ih (current.set idx item') hset hk'
        refine ⟨next, ?_, hnext.lessened.trans hless, ?_⟩
        · show (if totalTokens current ≤ cap then _ else _) = _
          rw [if_neg hcap, if_neg hdrop, dropAtom_some hone]
          have hplace : ((current.set idx item').map some)[idx]? = some (some item') := by
            rw [List.getElem?_map, hset]
            rfl
          dsimp only
          rw [hplace]
          exact hrun
        · intro j hj
          rw [hnext.others j hj, List.getElem?_set_ne (Ne.symm hj)]

/-- Of the speak and observation atoms of a block the last ones stay. -/
theorem exists_kept {first : Snapshot} {others : List Snapshot}
    (hnodup : ((first :: others).map Snapshot.atomId).Nodup)
    (hlong : ¬(sortBy Snapshot.chronoKey ((first :: others).filter isSpeakOrObs)).length ≤
      keepLast) :
    ∃ k ∈ first :: others, k.atomId ∉
      ((sortBy Snapshot.chronoKey ((first :: others).filter isSpeakOrObs)).take
        ((sortBy Snapshot.chronoKey ((first :: others).filter isSpeakOrObs)).length -
          keepLast)).map Snapshot.atomId := by
  have hids : ((sortBy Snapshot.chronoKey
      ((first :: others).filter isSpeakOrObs)).map Snapshot.atomId).Nodup :=
    ((sortBy_perm _ _).map _).nodup_iff.mpr (hnodup.sublist (List.filter_sublist.map _))
  have hmem : ∀ k ∈ sortBy Snapshot.chronoKey ((first :: others).filter isSpeakOrObs),
      k ∈ first :: others := by
    intro k hk
    rw [mem_sortBy] at hk
    exact (List.mem_filter.mp hk).1
  generalize sortBy Snapshot.chronoKey ((first :: others).filter isSpeakOrObs) = speakObs at *
  have hne : speakObs.drop (speakObs.length - keepLast) ≠ [] := by
    rw [Ne, List.drop_eq_nil_iff]
    have hkeep : keepLast = 3 := rfl
    omega
  obtain ⟨k, hk⟩ := List.exists_mem_of_ne_nil _ hne
  refine ⟨k, hmem k (List.mem_of_mem_drop hk), ?_⟩
  rw [← List.take_append_drop (speakObs.length - keepLast) speakObs, List.map_append,
    List.nodup_append] at hids
  intro hin
  exact hids.2.2 _ hin _ (List.mem_map_of_mem hk) rfl

theorem trimBlocks_ok (cap : Int) (rest current : List EpisodicItem) (idx : Nat)
    (hrest : ∀ i, current[idx + i]? = rest[i]?)
    (hnodup : ∀ item ∈ rest, item.atomIds.Nodup) :
    ∃ next, trimBlocks cap idx rest (current.map some) = .ok (next.map some) ∧
      Lessened next current := by
  induction rest generalizing current idx with
  | nil => exact ⟨current, rfl, Lessened.refl _⟩
  | cons item rest ih =>
    have hitem : current[idx]? = some item := hrest 0
    have htail : ∀ i, current[idx + 1 + i]? = rest[i]? := by
      intro i
      rw [Nat.add_assoc, Nat.add_comm 1 i]
      exact hrest (i + 1)
    have hitems := fun item hin => hnodup item (List.mem_cons_of_mem _ hin)
    rw [trimBlocks.eq_def]
    dsimp only
    rw [total_some]
    by_cases hcap : totalTokens current ≤ cap
    · refine ⟨current, ?_, Lessened.refl _⟩
      show (if totalTokens current ≤ cap then _ else _) = _
      rw [if_pos hcap]
      rfl
    · show ∃ next, (if totalTokens current ≤ cap then _ else _) = _ ∧ _
      rw [if_neg hcap]
      cases item with
      | summary tip => exact ih current (idx + 1) htail hitems
      | priorMoment mid first others =>
        by_cases hshort : (sortBy Snapshot.chronoKey
            ((first :: others).filter isSpeakOrObs)).length ≤ keepLast
        · obtain ⟨next, hrun, hnext⟩ := ih current (idx + 1) htail hitems
          refine ⟨next, ?_, hnext⟩
          dsimp only
          rw [if_pos hshort]
          exact hrun
        · have hown : ((first :: others).map Snapshot.atomId).Nodup :=
            hnodup (.priorMoment mid first others) List.mem_cons_self
          obtain ⟨k, hk, hstays⟩ := exists_kept hown hshort
          obtain ⟨mid', hrun, hmid⟩ := trimLoop_ok cap hstays
            (sortBy Snapshot.chronoKey ((first :: others).filter isSpeakOrObs)) current hitem hk
          have hafter : ∀ i, mid'[idx + 1 + i]? = rest[i]? := by
            intro i
            rw [hmid.others _ (by omega)]
            exact htail i
          obtain ⟨next, hrun', hnext⟩ := ih mid' (idx + 1) hafter hitems
          refine ⟨next, ?_, hnext.trans hmid.lessened⟩
          dsimp only
          rw [if_neg hshort, hrun]
          exact hrun'

theorem trimSpeakObsPerMoment_ok (cap : Int) (items : List EpisodicItem)
    (hnodup : ∀ item ∈ items, item.atomIds.Nodup) :
    ∃ left, trimSpeakObsPerMoment cap items = .ok left ∧ Lessened left items := by
  rw [trimSpeakObsPerMoment, total_some]
  by_cases hcap : totalTokens items ≤ cap
  · refine ⟨items, ?_, Lessened.refl _⟩
    show (if totalTokens items ≤ cap then _ else _) = _
    rw [if_pos hcap]
    rfl
  · obtain ⟨next, hrun, hnext⟩ := trimBlocks_ok cap items items 0
      (fun i => by rw [Nat.zero_add]) hnodup
    refine ⟨next, ?_, hnext⟩
    show (if totalTokens items ≤ cap then _ else _) = _
    rw [if_neg hcap, hrun]
    show Except.ok (Work.live (next.map some)) = _
    rw [live_some]

end Trim

section Summaries

variable {cap : Int} {open1hStart : String} {items : List EpisodicItem}

theorem dropOldest_sublist (p : EpisodicItem → Bool) (key : EpisodicItem → String)
    (items : List EpisodicItem) : (dropOldest p key items).Sublist items := by
  rw [dropOldest]
  cases oldestPlace p key items with
  | none => exact List.Sublist.refl _
  | some i => exact List.eraseIdx_sublist _ _

theorem dropClosedHours_sublist (cap : Int) (open1hStart : String) (items : List EpisodicItem) :
    (dropClosedHours cap open1hStart items).Sublist items := by
  fun_induction dropClosedHours cap open1hStart items with
  | case1 => exact List.Sublist.refl _
  | case2 => exact List.Sublist.refl _
  | case3 items _ _ ih => exact ih.trans (dropOldest_sublist _ _ _)

theorem dropOpenHour_sublist (cap : Int) (open1hStart : String) (kept rest : List EpisodicItem) :
    (dropOpenHour cap open1hStart kept rest).Sublist (kept ++ rest) := by
  induction rest generalizing kept with
  | nil =>
    rw [List.append_nil]
    exact List.Sublist.refl _
  | cons item rest ih =>
    have hskip : (kept ++ rest).Sublist (kept ++ item :: rest) :=
      (List.sublist_cons_self item rest).append_left kept
    rw [dropOpenHour]
    split_ifs
    · exact hskip
    · exact (ih kept).trans hskip
    · have hrest := ih (kept ++ [item])
      rwa [List.append_assoc] at hrest

theorem dropScales_sublist (cap : Int) (scales : List String) (items : List EpisodicItem) :
    (dropScales cap scales items).Sublist items := by
  induction scales generalizing items with
  | nil => exact List.Sublist.refl _
  | cons scale scales ih =>
    refine (ih _).trans ?_
    dsimp only
    split_ifs
    · exact List.Sublist.refl _
    · exact List.filter_sublist

theorem dropLeftovers_sublist (cap : Int) (items : List EpisodicItem) :
    (dropLeftovers cap items).Sublist items := by
  fun_induction dropLeftovers cap items with
  | case1 => exact List.Sublist.refl _
  | case2 items _ i _ ih => exact ih.trans (List.eraseIdx_sublist _ _)
  | case3 items _ _ i _ ih => exact ih.trans (List.eraseIdx_sublist _ _)
  | case4 => exact List.Sublist.refl _

/-- The last loop ends under the cap: an item is a block or a summary. -/
theorem dropLeftovers_fits (hcap : 0 ≤ cap) (items : List EpisodicItem) :
    totalTokens (dropLeftovers cap items) ≤ cap := by
  fun_induction dropLeftovers cap items with
  | case1 items h => exact h
  | case2 items _ i _ ih => exact ih
  | case3 items _ _ i _ ih => exact ih
  | case4 items hover hblocks htips =>
    have hnone : items = [] := by
      apply List.eq_nil_iff_forall_not_mem.mpr
      intro item hitem
      have hblock := List.filter_eq_nil_iff.mp (oldestPlace_none hblocks) item hitem
      have htip := List.filter_eq_nil_iff.mp (oldestPlace_none htips) item hitem
      rw [EpisodicItem.isSummary] at htip
      simp [hblock] at htip
    rw [hnone]
    exact hcap

theorem dropSummaries_sublist (cap : Int) (open1hStart : String) (items : List EpisodicItem) :
    (dropSummaries cap open1hStart items).Sublist items := by
  rw [dropSummaries]
  refine (dropLeftovers_sublist _ _).trans ?_
  refine (dropScales_sublist _ _ _).trans ((dropScales_sublist _ _ _).trans ?_)
  refine (dropScales_sublist _ _ _).trans ((dropScales_sublist _ _ _).trans ?_)
  have hclosed := dropClosedHours_sublist cap open1hStart items
  have hlast (current : List EpisodicItem) :
      (if totalTokens current ≤ cap then current
        else dropOldest (EpisodicItem.isClosed1h open1hStart) EpisodicItem.windowKey
          current).Sublist current := by
    split_ifs
    · exact List.Sublist.refl _
    · exact dropOldest_sublist _ _ _
  have hopen (current : List EpisodicItem) :
      (if totalTokens current ≤ cap then current
        else dropOpenHour cap open1hStart [] current).Sublist current := by
    split_ifs
    · exact List.Sublist.refl _
    · exact dropOpenHour_sublist cap open1hStart [] current
  exact (hopen _).trans ((hlast _).trans hclosed)

theorem dropSummaries_fits (hcap : 0 ≤ cap) (open1hStart : String) (items : List EpisodicItem) :
    totalTokens (dropSummaries cap open1hStart items) ≤ cap :=
  dropLeftovers_fits hcap _

end Summaries

/-- Shown ids of distinct items, each once. -/
theorem nodup_of_mem {items : List EpisodicItem} {item : EpisodicItem}
    (h : (allAtomIds items).Nodup) (hitem : item ∈ items) : item.atomIds.Nodup :=
  (List.nodup_flatMap.mp h).1 item hitem

/-- The shrink raises exactly when it empties a block too early; else its items fit. -/
theorem shrinkEpisodic_raises {cap : Int} (hcap : 0 ≤ cap) {now a b : Instant}
    (hwindow : windowBounds .h1 now = .ok (a, b)) {items : List EpisodicItem}
    (hnodup : (allAtomIds items).Nodup) :
    shrinkEpisodic cap now items = .error .noTokenEstimate ∧ Strands cap items ∨
      (∃ left, shrinkEpisodic cap now items = .ok left ∧ Lessened left items ∧
        totalTokens left ≤ cap) ∧ ¬Strands cap items := by
  have hrun : shrinkEpisodic cap now items = do
      let items ← dropRawKinds cap items
      if totalTokens items ≤ cap then return items
      let items ← trimSpeakObsPerMoment cap items
      if totalTokens items ≤ cap then return items
      return dropSummaries cap (isoZ a) items := by
    rw [shrinkEpisodic, hwindow]
    rfl
  rw [hrun]
  obtain ⟨hraises, hstrands⟩ | ⟨⟨raw, hdrop, hraw⟩, hnot⟩ := dropRawKinds_raises cap items
  · refine .inl ⟨?_, hstrands⟩
    rw [hraises]
    rfl
  · refine .inr ⟨?_, hnot⟩
    rw [hdrop]
    by_cases hfits : totalTokens raw ≤ cap
    · refine ⟨raw, ?_, hraw, hfits⟩
      show (if totalTokens raw ≤ cap then _ else _) = _
      rw [if_pos hfits]
      rfl
    · have hkept := hraw.nodup hnodup
      obtain ⟨left, htrim, hleft⟩ := trimSpeakObsPerMoment_ok cap raw
        fun item hitem => nodup_of_mem hkept hitem
      by_cases hfits' : totalTokens left ≤ cap
      · refine ⟨left, ?_, hleft.trans hraw, hfits'⟩
        show (if totalTokens raw ≤ cap then _ else _) = _
        rw [if_neg hfits, htrim]
        show (if totalTokens left ≤ cap then _ else _) = _
        rw [if_pos hfits']
        rfl
      · have hsub := Lessened.of_sublist (dropSummaries_sublist cap (isoZ a) left)
        refine ⟨dropSummaries cap (isoZ a) left, ?_, hsub.trans (hleft.trans hraw),
          dropSummaries_fits hcap _ _⟩
        show (if totalTokens raw ≤ cap then _ else _) = _
        rw [if_neg hfits, htrim]
        show (if totalTokens left ≤ cap then _ else _) = _
        rw [if_neg hfits']
        rfl

end Elyra.Memory
