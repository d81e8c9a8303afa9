import Yurucommu.StoryProjectionStable
import Yurucommu.StoryUpdates
import Yurucommu.ActorIdentityAgree

/-!
The life of a remote Story: its end does not come later, its scope stays, nothing of it changes once
it has ended, and an `Update` replaces what it names. What it does not name stays as long as no text
that is stored ends with white space.
-/

set_option autoImplicit false

namespace Yurucommu.StoryUpdates

open ActorIdentity (Platform)
open FeedCursor (toISOString)
open IsoDates (InRange isoText isoText_some yearOf_inRange)
open StoryProjection
open Whatwg (Text)

section promise

/-- What is stored of a Story, with the times that its columns hold. -/
structure Holds (P : Platform) (numberText : ℚ → Units) (row : StoryRow)
    (p : InboundStoryProjection) (published ends : ℤ) : Prop where
  json : row.attachmentsJson = p.toJson
  stored : p.Stored P
  size : p.size numberText ≤ maxAttachmentsJsonLength
  publishedAt : row.published = toISOString published
  endsAt : row.endTime = some (toISOString ends)
  life : ends ≤ published + maxStoryLifetimeMs
  date : InRange published ∧ InRange ends ∧ ends < yearTenThousand

def Compares (ends : ℤ) : Prop := ∀ now : ℤ, 0 ≤ now → now < yearTenThousand →
  (toISOString ends < toISOString now ↔ ends < now) ∧
    (toISOString now < toISOString ends ↔ now < ends)

/-- What an `Update` that is accepted changes: `p` was stored, `q` is. -/
structure Changes (a : Incoming) (s t : State) (p q : InboundStoryProjection) (ends : ℤ) :
    Prop where
  live : a.now < ends
  unnamed : hasStoryProjectionUpdate a.object = false →
    t.row.attachmentsJson = s.row.attachmentsJson
  kept : p.AllTidy → Kept a.object p q
  votes : t.votes = if a.object.overlays.isSome then [] else s.votes

end promise

section rows

variable {dates : Dates} {P : Platform} {numberText : ℚ → Units} {a : Incoming}
  {row row' : StoryRow} {p : InboundStoryProjection} {published ends : ℤ} {s t : State}

theorem yearOf_yearTenThousand {ms : ℤ} (h : ms < yearTenThousand) : IsoDates.yearOf ms ≤ 9999 := by
  have hmono := IsoDates.yearOf_mono (show ms ≤ yearTenThousand - 1 by omega)
  have hlast : IsoDates.yearOf (yearTenThousand - 1) = 9999 := by decide +kernel
  omega

theorem yearOf_nonneg {ms : ℤ} (h : 0 ≤ ms) : 0 ≤ IsoDates.yearOf ms := by
  have hmono := IsoDates.yearOf_mono h
  have hfirst : IsoDates.yearOf 0 = 1970 := by decide +kernel
  omega

theorem compares (h : ends < yearTenThousand) : Compares ends := by
  intro now hnow hnow'
  obtain ⟨hless,hmore⟩ := IsoDates.toISOString_lt_iff (yearOf_nonneg hnow)
    (yearOf_yearTenThousand hnow') (yearOf_yearTenThousand h)
  exact ⟨hless,hmore⟩

theorem toISOString_ne_nil (ms : ℤ) : toISOString ms ≠ [] := by
  intro hnil
  have hlength := congrArg List.length hnil
  rw [IsoDates.toISOString_eq,List.length_append,IsoDates.length_afterYear,
    List.length_nil] at hlength
  omega

theorem inRange_of_clock {now : ℤ} (h : 0 ≤ now) (h' : now < yearTenThousand) : InRange now := by
  unfold InRange
  unfold yearTenThousand at h'
  omega

theorem normalizeInboundTimestamp_spec {now : ℤ} (raw : Option Text) (hnow : InRange now) :
    ∃ ms, normalizeInboundTimestamp dates raw (toISOString now) = toISOString ms ∧ InRange ms ∧
      ms ≤ now + futurePublishedSkewMs := by
  unfold normalizeInboundTimestamp
  rw [dates.parse_toISOString now hnow]
  split
  · exact ⟨now,rfl,hnow,by unfold futurePublishedSkewMs; omega⟩
  · rename_i ms hms
    obtain ⟨text,_,hparse⟩ := Option.bind_eq_some_iff.mp hms
    dsimp only
    split
    · exact ⟨now,rfl,hnow,by unfold futurePublishedSkewMs; omega⟩
    · rename_i hle
      exact ⟨ms,rfl,dates.inRange _ _ hparse,not_lt.mp hle⟩

theorem normalizeInboundStoryCreateEndTime_some {now : ℤ} {requested : Option Text} {text : Text}
    (hnow : InRange now) (hpublished : InRange published)
    (h : normalizeInboundStoryCreateEndTime dates (toISOString published) requested
      (toISOString now) = some text) :
    ∃ ends, text = toISOString ends ∧ InRange ends ∧ ends ≤ published + maxStoryLifetimeMs ∧
      now < ends := by
  unfold normalizeInboundStoryCreateEndTime at h
  rw [dates.parse_toISOString _ hpublished,dates.parse_toISOString _ hnow] at h
  simp only [Option.bind_eq_bind,Option.bind_some] at h
  split at h
  · rename_i ms _
    split at h
    · rename_i hlive
      obtain ⟨hrange,rfl⟩ := isoText_some h
      exact ⟨_,rfl,hrange,min_le_right _ _,hlive⟩
    · cases h
  · split at h
    · rename_i hlive
      obtain ⟨hrange,rfl⟩ := isoText_some h
      exact ⟨_,rfl,hrange,le_refl _,hlive⟩
    · cases h

theorem holds_created (h : Created dates P numberText s) :
    0 ≤ s.now ∧ ∃ p published ends, Holds P numberText s.row p published ends := by
  obtain ⟨a,hrow,hnow,hclock,hlast⟩ := h.row
  have hskew : futurePublishedSkewMs = 300000 := rfl
  have hlife : maxStoryLifetimeMs = 90000000 := rfl
  have hrange : InRange a.now := inRange_of_clock hclock (by omega)
  unfold handleCreateStory at hrow
  cases hsuppressed : a.suppressed with
  | true => simp [hsuppressed] at hrow
  | false =>
    simp only [hsuppressed,Bool.false_eq_true,if_false,Option.bind_eq_bind,
      Option.bind_eq_some_iff] at hrow
    obtain ⟨p,hp,endTime,hend,addresses,_,hrow⟩ := hrow
    have hscope : (a.resolve addresses).allowed = true := by
      cases hallowed : (a.resolve addresses).allowed with
      | true => rfl
      | false => simp [hallowed] at hrow
    simp only [hscope,Bool.not_true,Bool.false_eq_true,if_false] at hrow
    obtain ⟨published,hpublished,hinRange,hle⟩ :=
      @normalizeInboundTimestamp_spec dates a.now a.published hrange
    rw [hpublished] at hend hrow
    obtain ⟨ends,rfl,hends,hmax,_⟩ :=
      normalizeInboundStoryCreateEndTime_some hrange hinRange hend
    obtain ⟨hstored,hsize⟩ := stored_create hp
    rw [← Option.some.inj hrow]
    refine ⟨hnow ▸ hclock,p,published,ends,rfl,hstored,hsize,rfl,rfl,hmax,hinRange,hends,?_⟩
    omega

theorem isoText_min {ends wanted latest : ℤ} {text : Text}
    (h : isoText (min ends (min wanted latest)) = some text) :
    ∃ later, text = toISOString later ∧ InRange later ∧ later ≤ ends ∧ later ≤ latest := by
  obtain ⟨hrange,rfl⟩ := isoText_some h
  exact ⟨_,rfl,hrange,min_le_left _ _,(min_le_right _ _).trans (min_le_right _ _)⟩

theorem normalizeInboundStoryUpdateEndTime_some {now ends : ℤ} {requested : Option Text}
    {text : Text} (hnow : InRange now) (hpublished : InRange published) (hends : InRange ends)
    (h : normalizeInboundStoryUpdateEndTime dates (toISOString published)
      (some (toISOString ends)) requested (toISOString now) = some text) :
    now < ends ∧ ∃ later, text = toISOString later ∧ InRange later ∧ later ≤ ends ∧
      later ≤ published + maxStoryLifetimeMs := by
  have hpresent : present (some (toISOString ends)) = some (toISOString ends) := by
    simp [present,Option.filter,toISOString_ne_nil]
  unfold normalizeInboundStoryUpdateEndTime at h
  rw [dates.parse_toISOString _ hpublished,dates.parse_toISOString _ hnow,hpresent] at h
  simp only [Option.bind_eq_bind,Option.bind_some,dates.parse_toISOString _ hends] at h
  split at h
  · cases h
  · rename_i hlive
    refine ⟨not_le.mp hlive,?_⟩
    cases requested with
    | none => exact isoText_min h
    | some requested =>
      obtain ⟨wanted,_,hiso⟩ := Option.bind_eq_some_iff.mp h
      exact isoText_min hiso

theorem handleUpdate_some (hrow : Holds P numberText row p published ends) (hnow : 0 ≤ a.now)
    (hclock : a.now < yearTenThousand) (h : handleUpdate dates P numberText a row = some row') :
    a.now < ends ∧ row'.communityApId = row.communityApId ∧ row'.published = row.published ∧
      ∃ q later, Holds P numberText row' q published later ∧ later ≤ ends ∧
        (hasStoryProjectionUpdate a.object = false → row'.attachmentsJson = row.attachmentsJson) ∧
        (p.AllTidy → Kept a.object p q) := by
  have hrange := inRange_of_clock hnow hclock
  obtain ⟨hpublished,hends,hlast⟩ := hrow.date
  unfold handleUpdate at h
  cases hgate : !a.byAuthor || !isStoryType a.types || a.suppressed with
  | true => simp [hgate] at h
  | false =>
    simp only [hgate,Bool.false_eq_true,if_false,Option.bind_eq_bind,
      Option.bind_eq_some_iff] at h
    obtain ⟨endTime,hend,h⟩ := h
    rw [hrow.publishedAt,hrow.endsAt] at hend
    obtain ⟨hlive,later,rfl,hlater,hle,hmax⟩ :=
      normalizeInboundStoryUpdateEndTime_some hrange hpublished hends hend
    cases hscope : scopeStays a row with
    | false => simp [hscope] at h
    | true =>
      simp only [hscope,Bool.not_true,Bool.false_eq_true,if_false,
        Option.bind_eq_some_iff] at h
      obtain ⟨projection,hprojection,h⟩ := h
      rw [hrow.json] at hprojection
      obtain ⟨⟨hstored,hsize⟩,hkept⟩ := stored_update hrow.stored hprojection
      rw [← Option.some.inj h]
      refine ⟨hlive,rfl,rfl,?_⟩
      have hdate := hlast.trans_le' hle
      cases hnamed : hasStoryProjectionUpdate a.object with
      | true =>
        refine ⟨projection,later,
          ⟨?_,hstored,hsize,hrow.publishedAt,rfl,hmax,hpublished,hlater,hdate⟩,hle,fun hno => (by cases hno),fun htidy => ?_⟩
        · simp
        · rw [(reread_eq_iff hrow.stored).mpr htidy] at hkept
          exact hkept
      | false =>
        refine ⟨p,later,
          ⟨?_,hrow.stored,hrow.size,hrow.publishedAt,rfl,hmax,hpublished,hlater,hdate⟩,hle,fun _ => ?_,
            fun _ => ⟨fun _ => rfl,fun _ => rfl,fun _ => rfl,fun _ => rfl⟩⟩
        · simp [hrow.json]
        · simp

end rows

section runs

variable {dates : Dates} {P : Platform} {numberText : ℚ → Units} {s t : State}

def Live (P : Platform) (numberText : ℚ → Units) (s : State) (p : InboundStoryProjection)
    (published ends : ℤ) : Prop :=
  0 ≤ s.now ∧ Holds P numberText s.row p published ends

structure Later (P : Platform) (numberText : ℚ → Units) (s : State) (published ends : ℤ)
    (t : State) : Prop where
  clock : s.now ≤ t.now
  publishedAt : t.row.published = s.row.published
  community : t.row.communityApId = s.row.communityApId
  unchanged : ends ≤ s.now → t.row = s.row
  live : ∃ q later, Live P numberText t q published later ∧ later ≤ ends

inductive Happens (dates : Dates) (P : Platform) (numberText : ℚ → Units) (s : State)
    (p : InboundStoryProjection) (ends : ℤ) : Event → State → InboundStoryProjection → Prop where
  | rejected (a : Incoming) (t : State) (refused : handleUpdate dates P numberText a s.row = none)
      (row : t.row = s.row) (votes : t.votes = s.votes) :
      Happens dates P numberText s p ends (.update a) t p
  | accepted (a : Incoming) (t : State) (q : InboundStoryProjection)
      (taken : (handleUpdate dates P numberText a s.row).isSome = true)
      (changes : Changes a s t p q ends) : Happens dates P numberText s p ends (.update a) t q
  | vote (v : StoryVote) (t : State) (row : t.row = s.row) (votes : t.votes = v :: s.votes) :
      Happens dates P numberText s p ends (.vote v) t p

theorem happens {l : Event} {p : InboundStoryProjection} {published ends : ℤ}
    (hs : Live P numberText s p published ends)
    (h : (machine dates P numberText).step l s = some t) :
    s.now ≤ t.now ∧ t.row.published = s.row.published ∧
      t.row.communityApId = s.row.communityApId ∧ (ends ≤ s.now → t.row = s.row) ∧
      ∃ q later, Live P numberText t q published later ∧ later ≤ ends ∧
        Happens dates P numberText s p ends l t q := by
  obtain ⟨hclock,hrow⟩ := hs
  cases l with
  | vote v =>
    obtain rfl := Option.some.inj h
    exact ⟨le_refl _,rfl,rfl,fun _ => rfl,p,ends,⟨hclock,hrow⟩,le_refl _,.vote v _ rfl rfl⟩
  | update a =>
    simp only [machine] at h
    split at h
    · rename_i htime
      obtain rfl := Option.some.inj h
      unfold afterUpdate
      cases hnew : handleUpdate dates P numberText a s.row with
      | none =>
        exact ⟨htime.1,rfl,rfl,fun _ => rfl,p,ends,⟨hclock.trans htime.1,hrow⟩,le_refl _,
          .rejected a _ hnew rfl rfl⟩
      | some row' =>
        obtain ⟨hlive,hcommunity,hpublished,q,later,hholds,hle,hunnamed,hkept⟩ :=
          handleUpdate_some hrow (hclock.trans htime.1) htime.2 hnew
        have hchanges : Changes a s ⟨a.now,row',if a.object.overlays.isSome then [] else s.votes⟩
            p q ends := ⟨hlive,hunnamed,hkept,rfl⟩
        refine ⟨htime.1,hpublished,hcommunity,fun hover => ?_,q,later,
          ⟨hclock.trans htime.1,hholds⟩,hle,.accepted a _ q (by rw [hnew]; rfl) hchanges⟩
        have hno := htime.1
        omega
    · cases h

theorem reaches_later {p : InboundStoryProjection} {published ends : ℤ}
    (hs : Live P numberText s p published ends) (h : (machine dates P numberText).Reaches s t) :
    Later P numberText s published ends t := by
  have hself : Later P numberText s published ends s :=
    ⟨le_refl _,rfl,rfl,fun _ => rfl,p,ends,hs,le_refl _⟩
  refine Machine.ReachesBy.invariant h hself fun b l c hb hl _ => ?_
  obtain ⟨q,later,hlive,hle⟩ := hb.live
  obtain ⟨hnow,hpublished,hcommunity,hover,q',later',hlive',hle',_⟩ := happens hlive hl
  refine ⟨hb.clock.trans hnow,hpublished.trans hb.publishedAt,hcommunity.trans hb.community,
    fun hend => ?_,q',later',hlive',hle'.trans hle⟩
  have hclock := hb.clock
  rw [hover (by omega),hb.unchanged hend]

/-- Of a Story that came in, in each state of each run: the projection that is stored is in its
bounds, and is read back unchanged exactly where no text of it ends with white space; each step is
one of three; and the end does not come later, nor is anything changed behind it. -/
theorem storyUpdates_exact (dates : Dates) (P : Platform) (numberText : ℚ → Units) {s₀ s : State}
    (h₀ : Created dates P numberText s₀) (h : (machine dates P numberText).Reaches s₀ s) :
    s.row.communityApId = s₀.row.communityApId ∧ s.row.published = s₀.row.published ∧
      ∃ p published ends, Holds P numberText s.row p published ends ∧ Compares ends ∧
        (parseStoredStoryProjection P s.row.attachmentsJson = some p ↔ p.AllTidy) ∧
        (∀ l t, (machine dates P numberText).step l s = some t →
          ∃ q later, Holds P numberText t.row q published later ∧
            Happens dates P numberText s p ends l t q) ∧
        ∀ t, (machine dates P numberText).Reaches s t →
          Later P numberText s published ends t := by
  obtain ⟨hclock,p₀,published₀,ends₀,hholds⟩ := holds_created h₀
  have hlater := reaches_later ⟨hclock,hholds⟩ h
  obtain ⟨p,ends,hlive,_⟩ := hlater.live
  have hstored := hlive.2.stored
  refine ⟨hlater.community,hlater.publishedAt,p,published₀,ends,hlive.2,compares hlive.2.date.2.2,
    ?_,fun l t hl => ?_,fun t ht => reaches_later hlive ht⟩
  · rw [hlive.2.json,parseStoredStoryProjection_toJson hstored,Option.some.injEq]
    exact reread_eq_iff hstored
  · obtain ⟨_,_,_,_,q,later,hnext,_,hhappens⟩ := happens hlive hl
    exact ⟨q,later,hnext.2,hhappens⟩

end runs

section cut

open ActorIdentity (plainHosts)

open Classical in
/-- The dates that are written as `toISOString` writes them, and no others. -/
noncomputable def isoDates : Dates where
  parse text := if h : ∃ ms, InRange ms ∧ toISOString ms = text then some h.choose else none
  parse_toISOString ms hms := by
    have hex : ∃ other, InRange other ∧ toISOString other = toISOString ms := ⟨ms,hms,rfl⟩
    rw [dif_pos hex,Option.some.injEq]
    exact IsoDates.toISOString_inj (yearOf_inRange hex.choose_spec.1) (yearOf_inRange hms)
      hex.choose_spec.2
  inRange text ms h := by
    split at h
    · rename_i hex
      rw [← Option.some.inj h]
      exact hex.choose_spec.1
    · cases h

/-- How the numbers of an attachment without overlays are written. -/
def naturalText (value : ℚ) : StoryProjection.Units := digitUnits value.num.toNat

def photo : Json :=
  .object [(.type,.string (JsString.units "Image")),
    (.url,.string (JsString.units "https://b.example/p.jpg"))]

/-- A caption of 501 code units, the last but one of them a space. -/
def longCaption : StoryProjection.Units := List.replicate 499 97 ++ [32,98]

def longStory : Incoming :=
  { now := 0, types := [JsString.units "Story"]
    object := { attachment := some photo, overlays := none, content := some longCaption
                displayDuration := none }
    published := none, endTime := none, addressing := [], byAuthor := true, suppressed := false
    resolve := fun _ => ⟨true,none⟩ }

def clearOverlays : Incoming :=
  { longStory with
    object := { attachment := none, overlays := some (.array []), content := none
                displayDuration := none } }

def photoProjection (caption : StoryProjection.Units) : InboundStoryProjection :=
  { attachment := ⟨defaultMediaType,JsString.units "https://b.example/p.jpg",1080,1920⟩
    displayDuration := defaultDisplayDuration, caption := some caption, overlays := [] }

def cutCaption : StoryProjection.Units := List.replicate 499 97 ++ [32]

def longRow : StoryRow :=
  ⟨toISOString 0,some (toISOString 90000000),none,(photoProjection cutCaption).toJson,none⟩

def longState : State := ⟨0,longRow,[]⟩

def clearedState : State :=
  ⟨0,{ longRow with
        attachmentsJson := (photoProjection (List.replicate 499 97)).toJson
        updated := some (toISOString 0) },[]⟩

theorem created_longStory : buildInboundStoryCreateProjection plainHosts naturalText
    longStory.object = some (photoProjection cutCaption) := by decide +kernel

theorem cleared_longStory : buildInboundStoryUpdateProjection plainHosts naturalText
    clearOverlays.object (photoProjection cutCaption).toJson =
      some (photoProjection (List.replicate 499 97)) := by decide +kernel

theorem endTime_longStory : normalizeInboundStoryCreateEndTime isoDates (toISOString 0) none
    (toISOString 0) = some (toISOString 90000000) := by
  unfold normalizeInboundStoryCreateEndTime
  rw [isoDates.parse_toISOString 0 (by decide)]
  rfl

theorem later_longStory : normalizeInboundStoryUpdateEndTime isoDates (toISOString 0)
    (some (toISOString 90000000)) none (toISOString 0) = some (toISOString 90000000) := by
  have hpresent : present (some (toISOString 90000000)) = some (toISOString 90000000) := by
    simp [present,Option.filter,toISOString_ne_nil]
  unfold normalizeInboundStoryUpdateEndTime
  rw [isoDates.parse_toISOString 0 (by decide),hpresent]
  simp only [Option.bind_eq_bind,Option.bind_some,isoDates.parse_toISOString 90000000 (by decide)]
  rfl

theorem handleCreateStory_longStory :
    handleCreateStory isoDates plainHosts naturalText longStory = some longRow := by
  unfold handleCreateStory
  rw [created_longStory]
  change ((normalizeInboundStoryCreateEndTime isoDates (toISOString 0) none
    (toISOString 0)).bind _) = _
  rw [endTime_longStory]
  rfl

theorem handleUpdate_clearOverlays : handleUpdate isoDates plainHosts naturalText clearOverlays
    longRow = some clearedState.row := by
  unfold handleUpdate
  change ((normalizeInboundStoryUpdateEndTime isoDates (toISOString 0)
    (some (toISOString 90000000)) none (toISOString 0)).bind fun endTime =>
      (buildInboundStoryUpdateProjection plainHosts naturalText clearOverlays.object
        (photoProjection cutCaption).toJson).bind _) = _
  rw [later_longStory,Option.bind_some,cleared_longStory]
  rfl

theorem created_longState : Created isoDates plainHosts naturalText longState :=
  ⟨⟨longStory,handleCreateStory_longStory,rfl,by decide,by decide⟩,rfl⟩

theorem step_longState : (machine isoDates plainHosts naturalText).step (.update clearOverlays)
    longState = some clearedState := by
  have hnow : longState.now ≤ clearOverlays.now ∧ clearOverlays.now < yearTenThousand := by decide
  have hafter : afterUpdate isoDates plainHosts naturalText clearOverlays longState =
      clearedState := by
    unfold afterUpdate
    rw [show handleUpdate isoDates plainHosts naturalText clearOverlays longState.row = _ from
      handleUpdate_clearOverlays]
    rfl
  simp only [machine]
  rw [if_pos hnow,hafter]

/-- A caption that was cut behind a space loses it in an `Update` that does not name it. -/
theorem caption_changed_unnamed :
    Created isoDates plainHosts naturalText longState ∧
      longState.row.attachmentsJson = (photoProjection cutCaption).toJson ∧
      parseStoredStoryProjection plainHosts longState.row.attachmentsJson ≠
        some (photoProjection cutCaption) ∧
      clearOverlays.object.content = none ∧
      (machine isoDates plainHosts naturalText).step (.update clearOverlays) longState =
        some clearedState ∧
      clearedState.row.attachmentsJson = (photoProjection (List.replicate 499 97)).toJson ∧
      (List.replicate 499 97 : StoryProjection.Units) ≠ cutCaption :=
  ⟨created_longState,rfl,by decide +kernel,rfl,step_longState,rfl,by decide +kernel⟩

theorem storyUpdates_exact_long :
    Created isoDates plainHosts naturalText longState ∧
      (machine isoDates plainHosts naturalText).Reaches longState clearedState ∧
      ∃ p published ends,
        Holds plainHosts naturalText clearedState.row p published ends ∧ Compares ends ∧
        (parseStoredStoryProjection plainHosts clearedState.row.attachmentsJson = some p ↔
          p.AllTidy) := by
  have hreach : (machine isoDates plainHosts naturalText).Reaches longState clearedState :=
    .single step_longState
  obtain ⟨_,_,p,published,ends,hholds,hcompares,hread,_⟩ :=
    storyUpdates_exact isoDates plainHosts naturalText created_longState hreach
  exact ⟨created_longState,hreach,p,published,ends,hholds,hcompares,hread⟩

end cut

end Yurucommu.StoryUpdates
