import Elyra.Framework.Run
import Elyra.Identity.ProfileHeld

namespace Elyra.Identity

open Presence (intOrRaise)
open Secrets (blank)

section Steady

variable [PyCoerce]

/-- The count of a document is a number, and unless a change was forced its draft stages no name
that asks for force. -/
structure Meta.Steady (forced : Bool) (m : Meta) : Prop where
  counted : ∃ n, countOf (m.get? "promote_count") = .ok n
  staged : forced = false → ∀ name, m.staged.get? "full_name" = some name →
    namedText (m.get? "full_name") = namedText (some name)

theorem Meta.Steady.congr {forced : Bool} {m m' : Meta} (h : m.Steady forced)
    (hcount : m'.get? "promote_count" = m.get? "promote_count")
    (hname : namedText (m'.get? "full_name") = namedText (m.get? "full_name"))
    (hdraft : m'.get? "draft_meta" = m.get? "draft_meta") : m'.Steady forced := by
  have hstaged : m'.staged = m.staged := by
    rw [Meta.staged, Meta.staged, draftFields, draftFields, hdraft]
  refine ⟨by rw [hcount]; exact h.counted, fun hf name hn => ?_⟩
  rw [hstaged] at hn
  rw [hname]
  exact h.staged hf name hn

theorem steady_default (a : Actor) (env : Surroundings) (id : VersionId) (body : String)
    (forced : Bool) : (defaultMeta a env id body).Steady forced := by
  obtain ⟨-, -, hdraft, hcount⟩ := defaultMeta_fields a env id body
  refine ⟨⟨0, by rw [hcount]; rfl⟩, fun _ name hn => ?_⟩
  rw [staged_null (by rw [hdraft]; rfl)] at hn
  cases hn

theorem Follows.steady {free : List String} {o : Option Meta} {m' : Meta} {forced : Bool}
    (h : Follows free o (some m')) (ho : ∀ m, o = some m → m.Steady forced)
    (hfree : free ⊆ nudgeFields) : m'.Steady forced := by
  have hout : ∀ f, f ∉ nudgeFields → f ∉ free := fun f hf hm => hf (hfree hm)
  cases h with
  | start a env id body m' h =>
    exact (steady_default a env id body forced).congr (h _ (hout _ (by decide)))
      (congrArg namedText (h _ (hout _ (by decide)))) (h _ (hout _ (by decide)))
  | kept m m' h =>
    exact (ho m rfl).congr (h _ (hout _ (by decide)))
      (congrArg namedText (h _ (hout _ (by decide)))) (h _ (hout _ (by decide)))

omit [PyCoerce] in
/-- A document that is there is the one that is read. -/
theorem Settled.document {q : Profile} (hq : Settled q) (a : Actor) (env : Surroundings) :
    q.doc = none ∨ q.doc = some (q.loadOrDefault a env false) := by
  cases hdoc : q.doc with
  | none => exact .inl rfl
  | some m =>
    have hload : q.load false = some m := hdoc
    rw [Profile.loadOrDefault, hload]
    dsimp only
    rw [if_neg (hq.fits m hdoc).1]
    exact .inr rfl

theorem ensures_promote (a : Actor) (env : Surroundings) (fails : PromoteReads)
    (args : PromoteArgs) {forced : Bool} (hp : Settled p)
    (hsteady : ∀ m, p.doc = some m → m.Steady forced)
    (hclear : fails.load = true → promotes a env args p = false) :
    Ensures (· = p) (promote a env fails args)
      (fun reply p' => (∃ error, reply = .refused error ∧ Held layoutFields p p') ∨
        reply = .ok ∧ ∃ q, Held layoutFields p q ∧
          Promoted a env (q.loadOrDefault a env false) q p')
      (fun _ => Held layoutFields p) := by
  have hself : Held layoutFields p p := .refl _ hp
  unfold promote
  by_cases hreason : blank args.reason = true
  · rw [if_pos hreason]
    exact ensures_pure _ (by rintro s rfl; exact .inl ⟨_, rfl, hself⟩)
  rw [if_neg hreason]
  apply ensures_get_bind
  intro s hs
  obtain rfl : s = p := hs
  by_cases hthere : (!s.there a) = true
  · rw [if_pos hthere]
    exact ensures_pure _ (by rintro t rfl; exact .inl ⟨_, rfl, hself⟩)
  rw [if_neg hthere]
  refine ensures_bind ((ensures_ensureLayout a env fails.ensure (by decide)).weaken
    (by rintro t rfl; exact hself) (fun _ _ h => h) (fun _ _ h => h)) fun _ => ?_
  apply ensures_get_bind
  intro q hq
  cases hdraft : q.draft with
  | none => exact ensures_pure _ (by rintro t rfl; exact .inl ⟨_, rfl, hq⟩)
  | some draft =>
    dsimp only
    by_cases hblank : blank draft = true
    · rw [if_pos hblank]
      exact ensures_pure _ (by rintro t rfl; exact .inl ⟨_, rfl, hq⟩)
    rw [if_neg hblank]
    by_cases hsha : (args.expectedDraftSha256.any fun sha => sha ≠ env.sha256 draft) = true
    · rw [if_pos hsha]
      exact ensures_pure _ (by rintro t rfl; exact .inl ⟨_, rfl, hq⟩)
    rw [if_neg hsha]
    have hpromotes : promotes a env args s = true := by
      rw [Bool.not_eq_true, Bool.not_eq_false'] at hthere
      rw [promotes, ← hq.draft, hdraft, Option.any_some, Bool.eq_false_of_not_eq_true hreason,
        Bool.eq_false_of_not_eq_true hblank, Bool.eq_false_of_not_eq_true hsha, hthere]
      rfl
    have hreads : fails.load = false := by
      cases hload : fails.load with
      | false => rfl
      | true => rw [hclear hload] at hpromotes; cases hpromotes
    obtain ⟨hfits, hfollows⟩ := hq.loaded a env
    have hdoc := hq.settled.document a env
    have hcount := (hfollows.steady hsteady layoutFields_subset).counted
    refine (ensures_promoteDraft a env fails draft hq.settled (by rw [hreads]) hfits hdoc
      hcount).weaken (fun _ h => h) (fun reply p' h => ?_) (fun _ _ h => h.elim)
    exact .inr ⟨h.1, q, hq, h.2⟩

end Steady

section Calls

variable [PyCoerce]

/-- A call on a store, with what it reads besides the files and which reads of the document fail;
the store of the self has no `record_name_nudge`. -/
inductive ProfileCall where
  | ensureLayout (env : Surroundings) (fails : EnsureReads)
  | recordNameNudge (env : Surroundings) (fails : NudgeReads) (momentId : String)
  | writeDraft (env : Surroundings) (fails : DraftReads) (args : DraftArgs)
  | promote (env : Surroundings) (fails : PromoteReads) (args : PromoteArgs)

def ProfileCall.perform (a : Actor) : ProfileCall → ProfileM Reply
  | .ensureLayout env fails => do
    Identity.ensureLayout a env fails
    return .ok
  | .recordNameNudge env fails momentId => Identity.recordNameNudge a env fails momentId
  | .writeDraft env fails args => Identity.writeDraft a env fails args
  | .promote env fails args => Identity.promote a env fails args

/-- The patch sets a name with `force_full_name`. -/
def DraftArgs.forces (args : DraftArgs) : Bool :=
  args.forced && (args.fields.get? "full_name").isSome

/-- A store, and whether the draft that is staged was forced to change its name. -/
structure History where
  profile : Profile
  forced : Bool

def History.next (h : History) (c : ProfileCall) (reply : Reply) : Bool :=
  match c, reply with
  | .writeDraft _ _ args, .ok => h.forced || args.forces
  | .promote _ _ _, .ok => false
  | _, _ => h.forced

def step (a : Actor) (h : History) (c : ProfileCall) : History :=
  match c.perform a h.profile with
  | .ok reply p => ⟨p, h.next c reply⟩
  | .error _ p => ⟨p, h.forced⟩

def watched : List String :=
  ["full_name", "goes_by", "created_at", "versions", "promote_count", "name_nudge"]

/-- The fields a call is asked to change: a nudge the nudge, a promote the history, the fields that
are staged and, with a name, the nudge. -/
def ProfileCall.asks (a : Actor) (p : Profile) : ProfileCall → String → Prop
  | .ensureLayout _ _, _ => False
  | .recordNameNudge _ _ _, f => f = "name_nudge"
  | .writeDraft _ _ args, f => f = "name_nudge" ∧ args.wants a = true
  | .promote _ _ _, f =>
    let staged : Meta := (p.doc.bind draftFields).getD .empty
    f = "versions" ∨ f = "promote_count" ∨
      f ∈ draftMetaKeys ∧ staged.get? f ≠ none ∨
      f = "name_nudge" ∧ (staged.get? "goes_by" ≠ none ∨ staged.get? "real_name_known" ≠ none)

/-- The document is there after the call with the fields the call is not asked to change, and a name
changes only after it was forced. -/
def Keeps (a : Actor) (h : History) (c : ProfileCall) (h' : History) : Prop :=
  (∀ m, h.profile.doc = some m → ∃ m', h'.profile.doc = some m' ∧
    ∀ f ∈ watched, ¬c.asks a h.profile f → m'.get? f = m.get? f) ∧
  (requiresForce h.profile.name h'.profile.name = true → h.forced = true)

/-- No call that stages a draft or promotes one misses the document it writes back, and none passes
the gate of `full_name` with a blank name because it missed the name that is there. -/
def Clear (a : Actor) (h : History) : ProfileCall → Prop
  | .ensureLayout _ _ | .recordNameNudge _ _ _ => True
  | .writeDraft env fails args =>
    (fails.main = true → stages a env fails args h.profile = false) ∧
    (fails.gate = true → ∀ name, args.fields.get? "full_name" = some name →
      args.forced = true ∨ namedText (some name) ≠ none ∨ namedText h.profile.name = none)
  | .promote env fails args => fails.load = true → promotes a env args h.profile = false

/-- A store whose index fits its files and whose document counts its promotes; a name that is staged
is the live one unless it was forced. -/
structure Sound (h : History) : Prop where
  settled : Settled h.profile
  steady : ∀ m, h.profile.doc = some m → m.Steady h.forced

end Calls

section Steps

variable [PyCoerce] {a : Actor} {h : History} {c : ProfileCall}

/-- The call keeps what it is not asked to change, in a store that is as sound. -/
def Advances (a : Actor) (h : History) (c : ProfileCall) (h' : History) : Prop :=
  Sound h' ∧ Keeps a h c h'

theorem step_of_ensures {Q : Reply → Profile → Prop} {E : PyErr → Profile → Prop}
    (hspec : Ensures (· = h.profile) (c.perform a) Q E)
    (hok : ∀ reply p', Q reply p' → Advances a h c ⟨p', h.next c reply⟩)
    (herr : ∀ e p', E e p' → Advances a h c ⟨p', h.forced⟩) : Advances a h c (step a h c) := by
  have hrun := hspec h.profile rfl
  unfold step
  cases hperform : c.perform a h.profile with
  | ok reply p' =>
    rw [hperform] at hrun
    exact hok reply p' hrun
  | error e p' =>
    rw [hperform] at hrun
    exact herr e p' hrun

theorem Meta.Steady.mono {forced forced' : Bool} {m : Meta} (hm : m.Steady forced)
    (hf : forced = true → forced' = true) : m.Steady forced' := by
  refine ⟨hm.counted, fun hfalse => hm.staged ?_⟩
  cases forced with
  | false => rfl
  | true => exact absurd (hf rfl) (by rw [hfalse]; decide)

theorem not_requiresForce {x y : Option Json} (hxy : namedText x = namedText y) :
    ¬requiresForce x y = true := by
  simp [requiresForce, hxy]

/-- A call that writes only free fields. -/
theorem held_step {free : List String} {p' : Profile} {forced' : Bool} (hs : Sound h)
    (hheld : Held free h.profile p') (hfree : free ⊆ nudgeFields)
    (hasks : ∀ f ∈ watched, ¬c.asks a h.profile f → f ∉ free)
    (hf : h.forced = true → forced' = true) : Advances a h c ⟨p', forced'⟩ := by
  refine ⟨⟨hheld.settled, fun m hm => ?_⟩, fun m hm => ?_, fun hname => absurd hname ?_⟩
  · have hfollows := hheld.doc
    rw [show p'.doc = some m from hm] at hfollows
    exact (hfollows.steady hs.steady hfree).mono hf
  · have hfollows := hheld.doc
    rw [hm] at hfollows
    cases hp : p'.doc with
    | none =>
      rw [hp] at hfollows
      cases hfollows
    | some m' =>
      rw [hp] at hfollows
      cases hfollows with
      | kept _ _ hkept => exact ⟨m', rfl, fun f hw hn => hkept f (hasks f hw hn)⟩
  · exact not_requiresForce (hheld.name fun hm => absurd (hfree hm) (by decide)).symm

omit [PyCoerce] in
theorem watched_layout : ∀ f ∈ watched, f ∉ layoutFields := by decide

omit [PyCoerce] in
theorem watched_nudge : ∀ f ∈ watched, f ≠ "name_nudge" → f ∉ nudgeFields := by decide

theorem ensureLayout_step {env : Surroundings} {fails : EnsureReads} (hs : Sound h) :
    Advances a h (.ensureLayout env fails) (step a h (.ensureLayout env fails)) := by
  have hspec : Ensures (· = h.profile) (ProfileCall.perform a (.ensureLayout env fails))
      (fun _ => Held layoutFields h.profile) (fun _ => Held layoutFields h.profile) := by
    refine ensures_bind ((ensures_ensureLayout a env fails (by decide)).weaken
      (by rintro s rfl; exact .refl _ hs.settled) (fun _ _ h => h) (fun _ _ h => h)) fun _ => ?_
    exact ensures_pure _ fun s hs => hs
  apply step_of_ensures hspec
  · exact fun reply p' hheld => held_step hs hheld layoutFields_subset
      (fun f hw _ => watched_layout f hw) fun hf => hf
  · exact fun e p' hheld => held_step hs hheld layoutFields_subset
      (fun f hw _ => watched_layout f hw) fun hf => hf

theorem recordNameNudge_step {env : Surroundings} {fails : NudgeReads} {momentId : String}
    (hs : Sound h) : Advances a h (.recordNameNudge env fails momentId)
      (step a h (.recordNameNudge env fails momentId)) := by
  have hspec : Ensures (· = h.profile)
      (ProfileCall.perform a (.recordNameNudge env fails momentId))
      (fun _ => Held nudgeFields h.profile) (fun _ => Held nudgeFields h.profile) :=
    (ensures_recordNameNudge a env fails momentId).weaken
      (by rintro s rfl; exact .refl _ hs.settled) (fun _ _ h => h) (fun _ _ h => h)
  apply step_of_ensures hspec
  · exact fun reply p' hheld => held_step hs hheld (List.Subset.refl _)
      (fun f hw hn => watched_nudge f hw hn) fun hf => hf
  · exact fun e p' hheld => held_step hs hheld (List.Subset.refl _)
      (fun f hw hn => watched_nudge f hw hn) fun hf => hf

omit [PyCoerce] in
theorem watched_besides {env : Surroundings} {fails : DraftReads} {args : DraftArgs} {p : Profile} :
    ∀ f ∈ watched, ¬(ProfileCall.writeDraft env fails args).asks a p f → f ∉ args.besides a := by
  intro f hw hn
  unfold DraftArgs.besides
  by_cases hwants : args.wants a = true
  · rw [if_pos hwants]
    exact watched_nudge f hw fun hf => hn ⟨hf, hwants⟩
  · rw [if_neg hwants]
    exact watched_layout f hw

omit [PyCoerce] in
theorem watched_staging : ∀ f ∈ watched, f ≠ "draft_meta" ∧ f ≠ "draft_updated_at" := by decide

/-- The name a draft stages is the live one, unless it was forced. -/
theorem staged_name {env : Surroundings} {fails : DraftReads} {args : DraftArgs} {m : Meta}
    (hs : Sound h) (hclear : Clear a h (.writeDraft env fails args))
    (hgate : gatePasses a env fails.gate args h.profile = true)
    (hname : namedText (m.get? "full_name") = namedText h.profile.name)
    (hm : m.Steady h.forced) (hforced : (h.forced || args.forces) = false) (name : Json)
    (hn : (args.fields.get? "full_name").or (m.staged.get? "full_name") = some name) :
    namedText (m.get? "full_name") = namedText (some name) := by
  rw [Bool.or_eq_false_iff] at hforced
  cases hfield : args.fields.get? "full_name" with
  | none =>
    rw [hfield, Option.none_or] at hn
    exact hm.staged hforced.1 name hn
  | some name' =>
    rw [hfield, Option.some_or] at hn
    obtain rfl : name' = name := Option.some.inj hn
    have hunforced : args.forced = false := by
      have hforces := hforced.2
      rw [DraftArgs.forces, hfield, Option.isSome_some, Bool.and_true] at hforces
      exact hforces
    unfold gatePasses requiresForce at hgate
    rw [hfield, loadOrDefault_name hs.settled] at hgate
    simp only [hunforced, Bool.or_false, ne_eq, Bool.not_eq_true', decide_eq_false_iff_not,
      not_not] at hgate
    rw [hname, ← hgate]
    cases hfails : fails.gate with
    | false => rfl
    | true =>
      rw [hfails, if_pos rfl] at hgate
      obtain hforce | hnamed | hlive := hclear.2 hfails name' hfield
      · rw [hunforced] at hforce
        cases hforce
      · exact absurd hgate.symm hnamed
      · exact hlive

theorem writeDraft_step {env : Surroundings} {fails : DraftReads} {args : DraftArgs}
    (hs : Sound h) (hclear : Clear a h (.writeDraft env fails args)) :
    Advances a h (.writeDraft env fails args) (step a h (.writeDraft env fails args)) := by
  apply step_of_ensures (ensures_writeDraft a env fails args hs.settled)
  · rintro reply p' (hheld | ⟨rfl, hstages, q, hq, hversions, hdoc⟩)
    · refine held_step hs hheld (besides_subset a args) watched_besides fun hf => ?_
      cases reply with
      | ok => exact Bool.or_eq_true_iff.mpr (.inl hf)
      | refused error => exact hf
    have hmain : fails.main = false := by
      cases hfails : fails.main with
      | false => rfl
      | true => rw [hclear.1 hfails] at hstages; cases hstages
    rw [hmain] at hdoc
    obtain ⟨hfits, hfollows⟩ := hq.loaded a env
    generalize q.loadOrDefault a env false = m at hdoc hfits hfollows
    have hget : ∀ f, f ≠ "draft_meta" → f ≠ "draft_updated_at" →
        (stageDraft a env args.body.isSome args.fields m).get? f = m.get? f :=
      fun f h₁ h₂ => get?_stageDraft a env _ _ m h₁ h₂
    have hlive := hfollows.name (full_name_not_besides a args)
    have hsteady := hfollows.steady hs.steady (besides_subset a args)
    refine ⟨⟨⟨fun hnone => ?_, fun m' hm' => ?_⟩, fun m' hm' => ?_⟩, fun m₀ hm₀ => ?_,
      fun hname => absurd hname ?_⟩
    · rw [show p'.doc = none from hnone] at hdoc
      cases hdoc
    · rw [show p'.doc = some m' from hm'] at hdoc
      obtain rfl := Option.some.inj hdoc
      obtain ⟨-, rows, hrows, hindexed⟩ := hfits
      have hrows' := (hget "versions" (by decide) (by decide)).trans hrows
      refine ⟨fun hnil => ?_, rows, hrows', by rw [hversions]; exact hindexed⟩
      rw [get?_of_items_eq_nil hnil] at hrows'
      cases hrows'
    · rw [show p'.doc = some m' from hm'] at hdoc
      obtain rfl := Option.some.inj hdoc
      refine ⟨?_, fun hforced name hn => ?_⟩
      · rw [hget _ (by decide) (by decide)]
        exact hsteady.counted
      · rw [staged_stageDraft a env _ _ m (by decide)] at hn
        rw [hget _ (by decide) (by decide)]
        have hgate : gatePasses a env fails.gate args h.profile = true := by
          simp only [stages, Bool.and_eq_true] at hstages
          exact hstages.1.1.2
        exact staged_name hs hclear hgate hlive hsteady hforced name hn
    · rw [hm₀] at hfollows
      cases hfollows with
      | kept _ _ hkept =>
        refine ⟨_, hdoc, fun f hw hn => ?_⟩
        obtain ⟨h₁, h₂⟩ := watched_staging f hw
        rw [hget f h₁ h₂]
        exact hkept f (watched_besides f hw hn)
    · refine not_requiresForce ?_
      rw [show (⟨p', h.next (.writeDraft env fails args) .ok⟩ : History).profile.name =
        (stageDraft a env args.body.isSome args.fields m).get? "full_name" by
          rw [Profile.name, hdoc]; rfl, hget _ (by decide) (by decide)]
      exact hlive.symm
  · exact fun e p' hheld => held_step hs hheld (besides_subset a args) watched_besides fun hf => hf

/-- The store with the draft of another. -/
def Profile.withDraftOf (p' p : Profile) : Profile := { p' with draft := p.draft }

omit [PyCoerce] in
theorem Held.undrafted {free : List String} {p q p' : Profile} (hq : Held free p q)
    (hdoc : p'.doc = q.doc) (hsettled : Settled p') : Held free p (p'.withDraftOf p) := by
  refine ⟨⟨hsettled.bare, hsettled.fits⟩, ?_, rfl⟩
  have hfollows := hq.doc
  rw [← hdoc] at hfollows
  exact hfollows

theorem counted_int (n : Int) : ∃ k, countOf (some (.int n)) = .ok k := by
  unfold countOf
  dsimp only
  split_ifs
  · refine ⟨n, ?_⟩
    unfold intOrRaise
    dsimp only
    rw [pyInt_int]
    rfl
  · exact ⟨0, rfl⟩

theorem promotedMeta_steady (env : Surroundings) (m : Meta) (sha : String) (rows : List Json)
    (count : Int) (forced : Bool) : (promotedMeta a env m sha rows count).Steady forced := by
  obtain ⟨-, hcount, hdraft⟩ := promotedMeta_fields a env m sha rows count
  refine ⟨by rw [hcount]; exact counted_int count, fun _ name hn => ?_⟩
  rw [staged_null (by rw [hdraft]; rfl)] at hn
  cases hn

/-- A promote writes a watched field only when it is asked to. -/
theorem promotedMeta_keeps {env : Surroundings} {fails : PromoteReads} {args : PromoteArgs}
    {p : Profile} {m₀ m : Meta} (hdoc : p.doc = some m₀)
    (hkept : ∀ f, f ∉ layoutFields → m.get? f = m₀.get? f) (sha : String) (rows : List Json)
    (count : Int) {f : String} (hw : f ∈ watched)
    (hn : ¬(ProfileCall.promote env fails args).asks a p f) :
    (promotedMeta a env m sha rows count).get? f = m₀.get? f := by
  have hstaged : ((p.doc.bind draftFields).getD .empty : Meta) = m.staged := by
    rw [hdoc, Option.bind_some, Meta.staged, draftFields, draftFields, hkept _ (by decide)]
  simp only [ProfileCall.asks, hstaged, not_or, not_and, not_not] at hn
  obtain ⟨hversions, hcount, hfield, hnudge⟩ := hn
  have hout : f ∉ promoteFields := by
    have hwatched : ∀ f ∈ watched, f ≠ "versions" → f ≠ "promote_count" → f ∉ promoteFields := by
      decide
    exact hwatched f hw hversions hcount
  rw [get?_promotedMeta a env m sha rows count hout, ← hkept f (watched_layout f hw)]
  by_cases hf : f = "name_nudge"
  · obtain ⟨hgoes, hknown⟩ := hnudge hf
    rw [hf]
    exact name_nudge_kept a m hgoes hknown
  · rw [get?_resetNudge a m m.promoted hf, get?_promoted]
    split_ifs with hkey
    · rw [hfield hkey, Option.none_or]
    · rfl

theorem promotedMeta_name (env : Surroundings) {m : Meta} (hm : m.Steady false) (sha : String)
    (rows : List Json) (count : Int) :
    namedText ((promotedMeta a env m sha rows count).get? "full_name") =
      namedText (m.get? "full_name") := by
  rw [get?_promotedMeta a env m sha rows count (by decide),
    get?_resetNudge a m m.promoted (by decide), get?_promoted, if_pos (by decide)]
  cases hname : m.staged.get? "full_name" with
  | none => rw [Option.none_or]
  | some name =>
    rw [Option.some_or]
    exact (hm.staged rfl name hname).symm

theorem promote_step {env : Surroundings} {fails : PromoteReads} {args : PromoteArgs}
    (hs : Sound h) (hclear : Clear a h (.promote env fails args)) :
    Advances a h (.promote env fails args) (step a h (.promote env fails args)) := by
  apply step_of_ensures (ensures_promote a env fails args hs.settled hs.steady hclear)
  · rintro reply p' (⟨error, rfl, hheld⟩ | ⟨rfl, q, hq, hpromoted⟩)
    · exact held_step hs hheld layoutFields_subset (fun f hw _ => watched_layout f hw) fun hf => hf
    obtain ⟨hdoc, hsettled, hstaged⟩ | ⟨sha, rows, count, hdoc, hindexed⟩ := hpromoted
    · have hsame := hq.undrafted hdoc hsettled
      obtain ⟨hsound, hkeeps⟩ : Advances a h (.promote env fails args)
          ⟨p'.withDraftOf h.profile, true⟩ :=
        held_step hs hsame layoutFields_subset (fun f hw _ => watched_layout f hw) fun _ => rfl
      refine ⟨⟨hsettled, fun m hm => ⟨(hsound.steady m hm).counted, fun _ name hn => ?_⟩⟩, hkeeps⟩
      have hread := hq.settled.document a env
      rw [← hdoc, show p'.doc = some m from hm] at hread
      obtain hnone | hsome := hread
      · cases hnone
      · rw [Option.some.inj hsome, hstaged] at hn
        cases hn
    · obtain ⟨-, hfollows⟩ := hq.loaded a env
      generalize q.loadOrDefault a env false = m at hdoc hfollows
      have hrows := (promotedMeta_fields a env m sha rows count).1
      have hsteady := hfollows.steady hs.steady layoutFields_subset
      refine ⟨⟨⟨fun hnone => ?_, fun m' hm' => ?_⟩, fun m' hm' => ?_⟩, fun m₀ hm₀ => ?_,
        fun hname => ?_⟩
      · rw [show p'.doc = none from hnone] at hdoc
        cases hdoc
      · rw [show p'.doc = some m' from hm'] at hdoc
        obtain rfl := Option.some.inj hdoc
        refine ⟨fun hnil => ?_, rows, hrows, hindexed⟩
        rw [get?_of_items_eq_nil hnil] at hrows
        cases hrows
      · rw [show p'.doc = some m' from hm'] at hdoc
        obtain rfl := Option.some.inj hdoc
        exact promotedMeta_steady env m sha rows count _
      · rw [hm₀] at hfollows
        cases hfollows with
        | kept _ _ hkept =>
          exact ⟨_, hdoc, fun f hw hn => promotedMeta_keeps hm₀ hkept sha rows count hw hn⟩
      · cases hforced : h.forced with
        | true => rfl
        | false =>
          rw [hforced] at hsteady
          have hsame := promotedMeta_name (a := a) env hsteady sha rows count
          rw [hfollows.name (by decide)] at hsame
          refine absurd hname (not_requiresForce ?_)
          rw [show (⟨p', h.next (.promote env fails args) .ok⟩ : History).profile.name =
            (promotedMeta a env m sha rows count).get? "full_name" by rw [Profile.name, hdoc]; rfl]
          exact hsame.symm
  · exact fun e p' hheld => held_step hs hheld layoutFields_subset
      (fun f hw _ => watched_layout f hw) fun hf => hf

end Steps

/-- In a run whose calls miss no document they write back, from a sound store, every call keeps the
fields it is not asked to change, and no name changes unless it was forced. -/
theorem identity_kept [PyCoerce] (a : Actor) (h : History) (calls : List ProfileCall)
    (hs : Sound h) (hclear : Along (step a) (Clear a) h calls) :
    Along (step a) (fun h c => Keeps a h c (step a h c)) h calls := by
  refine (hclear.shows Sound (fun h c hc hs => ?_) h calls hs).2
  cases c with
  | ensureLayout env fails => exact ensureLayout_step hs
  | recordNameNudge env fails momentId => exact recordNameNudge_step hs
  | writeDraft env fails args => exact writeDraft_step hs hc
  | promote env fails args => exact promote_step hs hc

section Sample

attribute [local instance] basicCoerce basicFloat

def sampleEnv : Surroundings where
  sha256 body := body
  seed := none
  migrated _ := none
  now := "2026-01-01T00:00:00Z"
  mint _ := ⟨"20260101T000000Z_00000a", by decide⟩

def adaMeta : Meta :=
  (defaultMeta (.user "ada") sampleEnv (sampleEnv.mint 0) "").set "full_name" (.str "Ada")

/-- The store of a user whose name is known. -/
def adaStore : History := ⟨⟨some adaMeta, some "I am Ada.", none, none, .empty⟩, false⟩

theorem sound_ada : Sound adaStore := by
  refine ⟨⟨fun hnone => ?_, fun m hm => ?_⟩, fun m hm => ?_⟩
  · cases hnone
  · cases hm
    have hnone : ∀ id ∈ (Dict.empty : Dict String String).keys, isVersionId id = false :=
      List.forall_mem_nil _
    exact (fits_defaultMeta _ _ _ _ hnone).set _ (by decide)
  · cases hm
    refine ⟨⟨0, rfl⟩, fun _ name hn => ?_⟩
    rw [staged_null (by decide)] at hn
    cases hn

def sampleReads (main : Bool) : DraftReads := ⟨⟨false, false⟩, false, ⟨⟨false, false⟩, false⟩, main⟩

def newBody : DraftArgs := ⟨some "Ada, again.", .empty, "update", none⟩

def newName : DraftArgs :=
  ⟨none, .ofList [("full_name", .str "Ada L."), ("force_full_name", .bool true)], "name", none⟩

theorem identity_kept_sample : Along (step (.user "ada"))
    (fun h c => Keeps (.user "ada") h c (step (.user "ada") h c)) adaStore
    [.writeDraft sampleEnv (sampleReads false) newBody,
      .writeDraft sampleEnv (sampleReads false) newName,
      .promote sampleEnv ⟨⟨false, false⟩, false⟩ ⟨"done", none⟩] :=
  identity_kept (.user "ada") adaStore _ sound_ada
    ⟨⟨fun h => (nomatch h), fun h => (nomatch h)⟩, ⟨fun h => (nomatch h), fun h => (nomatch h)⟩,
      fun h => (nomatch h), trivial⟩

/-- A draft of a new body whose last read of the document fails writes a default document back. -/
theorem missed_read_resets_name : ¬∀ (a : Actor) (h : History) (calls : List ProfileCall),
    Sound h → Along (step a) (fun h c => Keeps a h c (step a h c)) h calls := by
  intro hall
  obtain ⟨⟨hfields, -⟩, -⟩ := hall (.user "ada") adaStore
    [.writeDraft sampleEnv (sampleReads true) newBody] sound_ada
  obtain ⟨m', hm', hkept⟩ := hfields adaMeta rfl
  have hname := hkept "full_name" (by decide) fun hasked => absurd hasked.1 (by decide)
  have hreset : (step (.user "ada") adaStore (.writeDraft sampleEnv (sampleReads true) newBody)
      ).profile.doc.bind (fun m => m.get? "full_name") = some .null := by decide +kernel
  rw [hm', Option.bind_some, hname] at hreset
  exact absurd hreset (by decide)

end Sample

end Elyra.Identity
