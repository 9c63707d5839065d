import Elyra.Ladder.Refresh
import Elyra.Ladder.Summary
import Elyra.Memory.RangeQueries

namespace Elyra.Ladder

open Json Memory JsonlMemoryStore

section Refresh

variable (out : Outside) {s : JsonlMemoryStore}

variable [PyCoerce] [LadderDigest]

/-- A summary that was built for the window. -/
def Minted (scale : PeriodScale) (wStart wEnd : Instant) (version : Nat) (supersedes : Option String)
    (cch : String) (a : Atom) : Prop :=
  ∃ body metadata, a = summaryAtom scale wStart wEnd version body metadata ∧
    metadata.get? "version" = some (.int version) ∧
    metadata.get? "supersedes_atom_id" = some (optField supersedes) ∧
    metadata.get? "child_content_hash" = some (.str cch)

omit [PyCoerce] [LadderDigest] in
theorem get?_honestyFields (settings : LadderSettings) (scale : PeriodScale)
    (sources sourceIds pointers : List Atom) (fromChildren : Bool) (g : Generation) (v : Supersedes)
    (cch : String) (now : Instant) (key : String) :
    (Dict.ofList (honestyFields settings scale sources sourceIds pointers fromChildren g v cch
      now)).get? key = Dict.findItem (honestyFields settings scale sources sourceIds pointers
        fromChildren g v cch now) key := by
  apply Dict.get?_ofList
  show List.Nodup ["source", "summary_mode_requested", "from_children", "child_scale",
    "child_atom_ids", "source_atom_ids", "n_atoms", "n_moments", "n_speak", "n_tool",
    "pointer_atom_ids", "pointer_goal_ids", "pointer_task_ids", "version", "supersedes_atom_id",
    "previous_version_id", "child_content_hash", "llm_model", "llm_passes", "llm_error",
    "draft_chars", "generated_at"]
  decide

omit [PyCoerce] [LadderDigest] in
theorem buildHonestyMeta_fields (settings : LadderSettings) (scale : PeriodScale)
    (sources : List Atom) (fromChildren : Bool) (g : Generation) (v : Supersedes) (cch : String)
    (now : Instant) (metadata : Dict String Json)
    (h : buildHonestyMeta settings scale sources fromChildren g v cch now = .ok metadata) :
    metadata.get? "version" = some (.int v.version) ∧
      metadata.get? "supersedes_atom_id" = some (optField v.atomId) ∧
      metadata.get? "child_content_hash" = some (.str cch) := by
  rw [buildHonestyMeta] at h
  obtain ⟨sourceIds, -, h⟩ := except_bind_ok h
  obtain ⟨pointers, -, h⟩ := except_bind_ok h
  rw [← Except.ok.inj h, get?_honestyFields, get?_honestyFields, get?_honestyFields]
  exact ⟨rfl, rfl, rfl⟩

/-- What a refresh reads of the store: the window, its sources and its tip. -/
structure Reading (args : RefreshArgs) (scale : PeriodScale) (t : Instant) (s : JsonlMemoryStore)
    (wStart wEnd : Instant) (sources : List Atom) (tip : Option Atom) : Prop where
  bounds : windowBounds scale t = .ok (wStart, wEnd)
  sources : ∃ fromChildren,
    collectWindowSources s scale wStart wEnd args.preferChildren = .ok (sources, fromChildren)
  tip : resolveTip s scale wStart wEnd = .ok tip

/-- The version a refresh writes after the tip it found. -/
def versionAfter (scale : PeriodScale) (tip : Option Atom) : Except PyErr Int :=
  if usesVersionedIds scale then
    match tip with
    | none => .ok 1
    | some a => nextVersion a
  else .ok 1

end Refresh

section Put

variable [PyCoerce] [LadderDigest] (out : Outside)

omit [LadderDigest] in
theorem version_of_meta {a : Atom} {n : Int} (h : a.metadata.get? "version" = some (.int n)) :
    a.version = .ok n := by
  rw [Atom.version, h]
  by_cases hn : n = 0
  · rw [hn]
    rfl
  · have htruthy : truthy (.int n) = true := by simp [truthy, hn]
    show (if truthy (.int n) then _ else _) = _
    rw [if_pos htruthy]
    rfl

omit [LadderDigest] in
/-- The version after a tip's is above it. -/
theorem version_lt_next {a : Atom} {n : Int} (h : nextVersion a = .ok n) :
    ∃ v, a.version = .ok v ∧ v < n := by
  rw [nextVersion.eq_def] at h
  rw [Atom.version.eq_def]
  cases hv : a.metadata.get? "version" with
  | none =>
    rw [hv] at h
    refine ⟨0, rfl, ?_⟩
    rw [← Except.ok.inj h]
    decide
  | some v =>
    simp only [hv] at h ⊢
    split_ifs at h ⊢ with htruthy
    · cases hint : pyInt v with
      | none =>
        rw [hint] at h
        cases h
      | some m =>
        rw [hint] at h
        refine ⟨m, rfl, ?_⟩
        rw [← Except.ok.inj h]
        exact Int.lt_succ m
    · refine ⟨0, rfl, ?_⟩
      rw [← Except.ok.inj h]
      decide

omit [PyCoerce] in
theorem Minted.atomId {scale : PeriodScale} {wStart wEnd : Instant} {version : Nat}
    {supersedes : Option String} {cch : String} {a : Atom}
    (ha : Minted scale wStart wEnd version supersedes cch a) :
    a.atomId = summaryId scale wStart version := by
  obtain ⟨body, metadata, rfl, -⟩ := ha
  rfl

end Put
end Elyra.Ladder
