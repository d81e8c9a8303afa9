import Mathlib.Tactic.Cases
import Yurucommu.FederationBody
import Yurucommu.MachineTrace

/-!
Where no timer fires while the reader waits, no clone holds back a cancel, nothing is read of a body
that was let go, and no other member is used on a body above the limit, a response gives its whole
body or none.
-/

set_option autoImplicit false

namespace Yurucommu.FederationBody

open Whatwg (Text)

section loop

variable {limit : Nat} {above : Reading} {ending : Ending} {chunks : List Bytes}
  {timer : Option Nat} {got : Bytes}

theorem readLoop_nil (h : timer ≠ some 0) :
    readLoop limit above ending [] timer got = match ending with
      | .closed => some ⟨.ok got,false⟩
      | .failed => some ⟨.error .stream,false⟩
      | .unending => none := by
  cases timer with
  | none => cases ending <;> rfl
  | some n =>
    cases n with
    | zero => exact absurd rfl h
    | succ n => cases ending <;> rfl

theorem readLoop_cons {chunk : Bytes} (h : timer ≠ some 0) :
    readLoop limit above ending (chunk :: chunks) timer got =
      if limit < got.length + chunk.length then some above
      else readLoop limit above ending chunks (timer.map (· - 1)) (got ++ chunk) := by
  cases timer with
  | none => rfl
  | some n =>
    cases n with
    | zero => exact absurd rfl h
    | succ n => rfl

theorem readLoop_over (hgot : got.length ≤ limit)
    (htimer : ∀ n, timer = some n → n ≤ chunks.length →
      limit < (got ++ (chunks.take n).flatten).length)
    (hover : limit < (got ++ chunks.flatten).length) :
    readLoop limit above ending chunks timer got = some above := by
  have hzero : timer ≠ some 0 := by
    intro h
    have hlt := htimer 0 h (Nat.zero_le _)
    rw [List.take_zero,List.flatten_nil,List.append_nil] at hlt
    omega
  induction chunks generalizing timer got with
  | nil =>
    rw [List.flatten_nil,List.append_nil] at hover
    omega
  | cons chunk rest ih =>
    rw [readLoop_cons hzero]
    split
    next => rfl
    next hfits =>
      rw [← List.length_append] at hfits
      refine ih (Nat.le_of_not_lt hfits) (fun n hn hle => ?_) ?_ ?_
      · obtain ⟨m,hm,rfl⟩ := Option.map_eq_some_iff.1 hn
        cases m with
        | zero => exact absurd hm hzero
        | succ m =>
          have hlt := htimer (m + 1) hm (Nat.succ_le_succ hle)
          rwa [List.take_succ_cons,List.flatten_cons,← List.append_assoc] at hlt
      · rwa [List.append_assoc,← List.flatten_cons]
      · intro h
        obtain ⟨m,hm,hone⟩ := Option.map_eq_some_iff.1 h
        have hm' : m = 1 := by
          have hne : m ≠ 0 := fun h0 => hzero (h0 ▸ hm)
          omega
        have hlt := htimer m hm (by rw [hm',List.length_cons]; omega)
        rw [hm',List.take_succ_cons,List.take_zero,List.flatten_cons,List.flatten_nil,
          List.append_nil] at hlt
        exact hfits hlt

theorem readLoop_within (htimer : ∀ n, timer = some n → chunks.length < n)
    (hwithin : (got ++ chunks.flatten).length ≤ limit) :
    readLoop limit above ending chunks timer got = match ending with
      | .closed => some ⟨.ok (got ++ chunks.flatten),false⟩
      | .failed => some ⟨.error .stream,false⟩
      | .unending => none := by
  have hzero : timer ≠ some 0 := fun h => absurd (htimer 0 h) (Nat.not_lt_zero _)
  induction chunks generalizing timer got with
  | nil => rw [readLoop_nil hzero,List.flatten_nil,List.append_nil]
  | cons chunk rest ih =>
    have happend : got ++ (chunk :: rest).flatten = got ++ chunk ++ rest.flatten := by
      rw [List.flatten_cons,List.append_assoc]
    rw [happend] at hwithin ⊢
    have hfits : ¬limit < got.length + chunk.length := by
      rw [List.length_append,List.length_append] at hwithin
      omega
    rw [readLoop_cons hzero,if_neg hfits]
    refine ih (fun n hn => ?_) hwithin fun h => ?_
    · obtain ⟨m,hm,rfl⟩ := Option.map_eq_some_iff.1 hn
      have hlt := htimer m hm
      rw [List.length_cons] at hlt
      omega
    · obtain ⟨m,hm,hone⟩ := Option.map_eq_some_iff.1 h
      have hlt := htimer m hm
      rw [List.length_cons] at hlt
      omega

end loop

section reads

variable {url : Text} {limit : Nat} {response : Response} {timer : Timer} {clones : Clones}
  {member : Member} {w v : Wrapper} {reading : Reading}

structure Kept (response : Response) (w : Wrapper) : Prop where
  present : w.body = none → response.body = none
  same : w.disturbed = false → w.body = response.body
  locked : w.locked = true → w.disturbed = true

structure Capped (limit : Nat) (response : Response) (timer : Timer) (w : Wrapper)
    (reading : Reading) : Prop where
  settles : reading.outcome ≠ .pending
  whole : ∀ bytes, reading.outcome = .ok bytes →
    response.complete = some bytes ∧ bytes.length ≤ limit
  cut : w.untouched → response.firesIn timer ∨ limit < response.sent.length →
    (∃ failure, reading.outcome = .error failure) ∧ reading.cancelled = true
  second : w.bodyConsumed = true → ∃ failure, reading.outcome = .error failure

theorem capped_error {failure : Failure} {cancelled : Bool} (hcut : w.untouched →
    response.firesIn timer ∨ limit < response.sent.length → cancelled = true) :
    Capped limit response timer w ⟨.error failure,cancelled⟩ :=
  ⟨fun h => (by cases h),fun bytes h => (by cases h),
    fun hw hcase => ⟨⟨failure,rfl⟩,hcut hw hcase⟩,fun _ => ⟨failure,rfl⟩⟩

theorem isSome_of_cut (h : response.firesIn timer ∨ limit < response.sent.length) :
    response.body.isSome = true := by
  cases hbody : response.body with
  | some stream => rfl
  | none =>
    rcases h with ⟨stream,hstream,_⟩ | hover
    · rw [hbody] at hstream
      cases hstream
    · rw [Response.sent,hbody] at hover
      exact absurd hover (Nat.not_lt_zero _)

theorem cancelBody_untouched {failure : Failure} (hbody : w.body ≠ none)
    (hw : w.unusable = false) (hclones : w.teed = true → clones = .cancelled) :
    (cancelBody w clones failure).1 = ⟨.error failure,true⟩ := by
  have htaken : w.taken = false := (Bool.or_eq_false_iff.mp hw).1
  unfold cancelBody
  rw [if_neg (by simp [hbody,htaken])]
  cases hteed : w.teed with
  | false => rfl
  | true =>
    rw [hclones hteed]
    rfl

theorem cancelBody_taken {failure : Failure} (h : w.body = none ∨ w.taken = true) :
    cancelBody w clones failure = (⟨.error failure,false⟩,w) := if_pos h

theorem capped_readLoop {above : Reading} {stream : Stream} (hbody : response.body = some stream)
    (hbefore : timer ≠ .before)
    (htimer : ∀ n, timer = .waiting n → n ≤ stream.chunks.length →
      limit < (stream.chunks.take n).flatten.length)
    (habove : limit < response.sent.length →
      ∃ failure, above = ⟨.error failure,true⟩)
    (h : readLoop limit above stream.ending stream.chunks timer.chunks [] = some reading)
    (hfresh : w.bodyConsumed = false) : Capped limit response timer w reading := by
  have hwaiting : ∀ n, timer.chunks = some n → timer = .waiting n := by
    intro n hn
    cases timer with
    | never => cases hn
    | before => cases hn
    | waiting m =>
      cases hn
      rfl
  have hsent : response.sent = stream.chunks.flatten := by rw [Response.sent,hbody]; rfl
  by_cases hover : limit < stream.chunks.flatten.length
  · rw [readLoop_over (Nat.zero_le _) (fun n hn hle => htimer n (hwaiting n hn) hle) hover] at h
    obtain rfl := Option.some.inj h
    obtain ⟨failure,rfl⟩ := habove (hsent ▸ hover)
    exact capped_error fun _ _ => rfl
  · have hlate : ∀ n, timer = .waiting n → stream.chunks.length < n := by
      intro n hn
      by_contra hle
      have hlt := htimer n hn (Nat.le_of_not_lt hle)
      have hsub := ((List.take_sublist n stream.chunks).flatten).length_le
      omega
    rw [readLoop_within (fun n hn => hlate n (hwaiting n hn))
      (by simpa using Nat.le_of_not_lt hover)] at h
    have huncut : ¬(response.firesIn timer ∨ limit < response.sent.length) := by
      rintro (⟨stream',hstream,hfires⟩ | hlimit)
      · obtain rfl := Option.some.inj (hbody.symm.trans hstream)
        rcases hfires with hb | ⟨n,hn,hle⟩
        · exact hbefore hb
        · exact absurd (hlate n hn) (Nat.not_lt.mpr hle)
      · exact hover (hsent ▸ hlimit)
    cases hending : stream.ending with
    | closed =>
      rw [hending] at h
      obtain rfl := Option.some.inj h
      refine ⟨fun hp => (by cases hp),fun bytes hb => ?_,fun _ hcase => absurd hcase huncut,
        fun hc => ?_⟩
      · cases hb
        refine ⟨?_,Nat.le_of_not_lt hover⟩
        rw [Response.complete,hbody]
        exact if_pos hending
      · rw [hfresh] at hc
        cases hc
    | failed =>
      rw [hending] at h
      obtain rfl := Option.some.inj h
      exact capped_error fun _ hcase => absurd hcase huncut
    | unending =>
      rw [hending] at h
      cases h

theorem untouched_of_taken (hc : w.bodyConsumed = false) (htaken : w.taken ≠ true)
    (hin : InCap.Read limit response ⟨member,timer,clones⟩ w) :
    w.untouched ∧ w.disturbed = false := by
  have hdisturbed : w.disturbed = false := by
    cases hd : w.disturbed with
    | false => rfl
    | true => exact absurd (hin.released hc hd) htaken
  refine ⟨⟨hc,?_⟩,hdisturbed⟩
  rw [Wrapper.unusable,hdisturbed,Bool.not_eq_true _ |>.mp htaken]
  rfl

theorem capped_cancelBody {failure : Failure} (hkept : Kept response w)
    (hc : w.bodyConsumed = false) (hin : InCap.Read limit response ⟨member,timer,clones⟩ w)
    (hcut : w.body ≠ none → w.untouched → response.firesIn timer ∨
      limit < response.sent.length ∨ response.declaresOver limit) :
    Capped limit response timer w
      (cancelBody { w with bodyConsumed := true } clones failure).1 := by
  by_cases htaken : w.body = none ∨ w.taken = true
  · have hcancel : cancelBody { w with bodyConsumed := true } clones failure =
        (⟨.error failure,false⟩,{ w with bodyConsumed := true }) := cancelBody_taken htaken
    rw [hcancel]
    refine capped_error fun hw hcase => ?_
    rcases htaken with hbody | htaken
    · have hsome := isSome_of_cut hcase
      rw [hkept.present hbody] at hsome
      cases hsome
    · have hfree := hw.2
      rw [Wrapper.unusable,htaken,Bool.true_or] at hfree
      cases hfree
  · obtain ⟨hbody,hfree⟩ := not_or.mp htaken
    obtain ⟨hw,-⟩ := untouched_of_taken hc hfree hin
    have hclones : w.teed = true → clones = .cancelled :=
      fun hteed => hin.clones hw hteed (hcut hbody hw)
    have hcancel : (cancelBody { w with bodyConsumed := true } clones failure).1 =
        ⟨.error failure,true⟩ := cancelBody_untouched hbody hw.2 hclones
    rw [hcancel]
    exact capped_error fun _ _ => rfl

theorem wholeBody_unusable (hbody : w.body ≠ none) (hw : w.unusable = true) :
    wholeBody w = (⟨.error .consumed,false⟩,w) := by
  obtain ⟨stream,hstream⟩ := Option.ne_none_iff_exists'.1 hbody
  unfold wholeBody
  rw [hstream]
  exact if_pos hw

/-- A capped member was used before, cancels, finds no body or a stream that is taken, or loops. -/
theorem readBytes_cases (h : readBytes url limit response timer clones w = some (reading,v)) :
    (w.bodyConsumed = true ∧ wholeBody w = (reading,v)) ∨
    w.bodyConsumed = false ∧
      ((∃ failure,
          (response.declaresOver limit ∨ ∃ stream, w.body = some stream ∧ timer = .before) ∧
          cancelBody { w with bodyConsumed := true } clones failure = (reading,v)) ∨
        (w.body = none ∧ reading = ⟨.ok [],false⟩ ∧ v = { w with bodyConsumed := true }) ∨
        (w.taken = true ∧ reading = ⟨.error .consumed,false⟩ ∧
          v = { w with bodyConsumed := true }) ∨
        ∃ stream, w.body = some stream ∧ ¬response.declaresOver limit ∧ timer ≠ .before ∧
          w.taken ≠ true ∧ v = { w.read with bodyConsumed := true } ∧
          readLoop limit (cancelBody { w with bodyConsumed := true } clones (.tooLarge url limit)).1
            stream.ending stream.chunks timer.chunks [] = some reading) := by
  unfold readBytes at h
  split at h
  next hc => exact .inl ⟨hc,Option.some.inj h⟩
  next hc =>
    refine .inr ⟨Bool.not_eq_true _ |>.mp hc,?_⟩
    unfold readBodyBytesWithCap at h
    dsimp only at h
    split at h
    next hdeclared => exact .inl ⟨_,.inl hdeclared,Option.some.inj h⟩
    next hdeclared =>
      split at h
      next hbody =>
        obtain ⟨rfl,rfl⟩ := Prod.mk.inj (Option.some.inj h)
        exact .inr (.inl ⟨hbody,rfl,rfl⟩)
      next stream hbody =>
        split at h
        next hbefore => exact .inl ⟨_,.inr ⟨stream,hbody,hbefore⟩,Option.some.inj h⟩
        next hbefore =>
          split at h
          next htaken =>
            obtain ⟨rfl,rfl⟩ := Prod.mk.inj (Option.some.inj h)
            exact .inr (.inr (.inl ⟨htaken,rfl,rfl⟩))
          next htaken =>
            obtain ⟨r,hloop,heq⟩ := Option.map_eq_some_iff.1 h
            obtain ⟨rfl,rfl⟩ := Prod.mk.inj heq
            exact .inr (.inr (.inr ⟨stream,hbody,hdeclared,hbefore,htaken,rfl,hloop⟩))

theorem capped_readBytes (hkept : Kept response w)
    (hin : InCap.Read limit response ⟨member,timer,clones⟩ w)
    (h : readBytes url limit response timer clones w = some (reading,v)) :
    Capped limit response timer w reading := by
  rcases readBytes_cases h with ⟨hc,heq⟩ | ⟨hc,⟨failure,hcase,heq⟩ | ⟨hbody,rfl,-⟩ |
    ⟨htaken,rfl,-⟩ | ⟨stream,hbody,hdeclared,hbefore,htaken,-,hloop⟩⟩
  · obtain ⟨hbody,hunusable⟩ := hin.again hc
    rw [wholeBody_unusable hbody hunusable] at heq
    obtain ⟨rfl,-⟩ := Prod.mk.inj heq
    refine capped_error fun hw => ?_
    rw [hw.1] at hc
    cases hc
  · obtain rfl : (cancelBody { w with bodyConsumed := true } clones failure).1 = reading := by
      rw [heq]
    refine capped_cancelBody hkept hc hin fun _ hw => ?_
    rcases hcase with hdeclared | ⟨stream,hbody,hbefore⟩
    · exact .inr (.inr hdeclared)
    · refine .inl ⟨stream,?_,.inl hbefore⟩
      rw [← hkept.same (Bool.or_eq_false_iff.mp hw.2).2,hbody]
  · have hnone := hkept.present hbody
    refine ⟨fun hp => (by cases hp),fun bytes hb => ?_,fun _ hcase => ?_,fun hsecond => ?_⟩
    · cases hb
      refine ⟨?_,Nat.zero_le _⟩
      rw [Response.complete,hnone]
    · have hsome := isSome_of_cut hcase
      rw [hnone] at hsome
      cases hsome
    · rw [hc] at hsecond
      cases hsecond
  · refine capped_error fun hw => ?_
    have hfree : w.taken = false := (Bool.or_eq_false_iff.mp hw.2).1
    rw [hfree] at htaken
    cases htaken
  · obtain ⟨hw,hdisturbed⟩ := untouched_of_taken hc htaken hin
    have hsame : response.body = some stream := by rw [← hkept.same hdisturbed,hbody]
    refine capped_readLoop hsame hbefore (fun n hn hle => ?_) (fun hover => ?_) hloop hc
    · exact (hin.waiting hw n stream hn hbody hle).resolve_right hdeclared
    · refine ⟨_,cancelBody_untouched ?_ hw.2 fun hteed => ?_⟩
      · exact fun hnone => by cases hbody.symm.trans hnone
      · exact hin.clones hw hteed (.inr (.inl hover))

/-- The body stays what it was, or was read. -/
theorem kept_wholeBody (hkept : Kept response w) : Kept response (wholeBody w).2 := by
  unfold wholeBody
  split
  next => exact hkept
  next stream hbody =>
    have hread : Kept response w.read :=
      ⟨hkept.present,fun h => (by cases h),fun _ => rfl⟩
    split
    next => exact hkept
    next =>
      cases stream.ending with
      | closed => exact hread
      | failed => exact hread
      | unending => exact hread

theorem kept_cancelBody {failure : Failure} (hkept : Kept response w) :
    Kept response (cancelBody w clones failure).2 := by
  unfold cancelBody
  split
  next => exact hkept
  next => exact ⟨fun h => (by cases h),fun h => (by cases h),fun _ => rfl⟩

theorem kept_readBytes (hkept : Kept response w)
    (h : readBytes url limit response timer clones w = some (reading,v)) : Kept response v := by
  have hconsumed : Kept response { w with bodyConsumed := true } := ⟨hkept.1,hkept.2,hkept.3⟩
  rcases readBytes_cases h with ⟨-,heq⟩ | ⟨-,⟨failure,-,heq⟩ | ⟨-,-,rfl⟩ | ⟨-,-,rfl⟩ |
    ⟨stream,-,-,-,-,rfl,-⟩⟩
  · have hwhole := kept_wholeBody hkept
    rwa [heq] at hwhole
  · obtain rfl : (cancelBody { w with bodyConsumed := true } clones failure).2 = v := by
      rw [heq]
    exact kept_cancelBody hconsumed
  · exact hconsumed
  · exact hconsumed
  · exact ⟨hkept.present,fun h => (by cases h),fun _ => rfl⟩

theorem kept_clone (hkept : Kept response w) : Kept response (clone w).2 := by
  unfold clone
  split
  next => exact hkept
  next =>
    split
    next => exact hkept
    next => exact ⟨hkept.1,hkept.2,hkept.3⟩

theorem kept_readStream (count : Nat) (leave : Leave) (hkept : Kept response w) :
    Kept response (readStream count leave w).2 := by
  unfold readStream
  split
  next => exact hkept
  next stream hbody =>
    split
    next => exact hkept
    next hlocked =>
      refine ⟨fun h => (by cases h),fun h => ?_,fun h => absurd h hlocked⟩
      simp only [Bool.or_eq_false_iff,decide_eq_false_iff_not] at h
      obtain ⟨⟨hdisturbed,hcount⟩,hleave⟩ := h
      obtain rfl : count = 0 := Nat.eq_zero_of_not_pos hcount
      rw [← hkept.same hdisturbed,hbody,if_neg hleave]
      rfl

theorem wholeBody_length (hin : w.unusable = true ∨ w.left.length ≤ limit) {bytes : Bytes}
    (h : (wholeBody w).1.outcome = .ok bytes) : bytes.length ≤ limit := by
  unfold wholeBody at h
  split at h
  next =>
    cases h
    exact Nat.zero_le _
  next stream hbody =>
    split at h
    next => cases h
    next hfree =>
      have hleft : w.left = stream.chunks.flatten := by rw [Wrapper.left,hbody]; rfl
      cases hending : stream.ending with
      | closed =>
        rw [hending] at h
        cases h
        rw [← hleft]
        exact hin.resolve_left hfree
      | failed =>
        rw [hending] at h
        cases h
      | unending =>
        rw [hending] at h
        cases h

theorem clone_length (hin : w.unusable = true ∨ w.left.length ≤ limit) {bytes : Bytes}
    (h : (clone w).1.outcome = .ok bytes) : bytes.length ≤ limit := by
  unfold clone at h
  split at h
  next =>
    cases h
    exact Nat.zero_le _
  next stream hbody =>
    split at h
    next => cases h
    next hfree =>
      have hleft : w.left = stream.chunks.flatten := by rw [Wrapper.left,hbody]; rfl
      cases h
      rw [← hleft]
      exact hin.resolve_left hfree

theorem readStream_length (count : Nat) (leave : Leave)
    (hin : w.locked = true ∨ w.left.length ≤ limit) {bytes : Bytes}
    (h : (readStream count leave w).1.outcome = .ok bytes) : bytes.length ≤ limit := by
  unfold readStream at h
  split at h
  next =>
    cases h
    exact Nat.zero_le _
  next stream hbody =>
    split at h
    next => cases h
    next hfree =>
      have hleft : w.left = stream.chunks.flatten := by rw [Wrapper.left,hbody]; rfl
      cases h
      have hsub := ((List.take_sublist count stream.chunks).flatten).length_le
      rw [← hleft] at hsub
      exact hsub.trans (hin.resolve_left hfree)

end reads

section results

variable {J : Type} {url : Text} {limit : Nat} {response : Response} {call : Call}
  {w v : Wrapper} {reading : Reading}

theorem Capped.right (decode : Bytes → Text) (parse : Text → Option J)
    (hcapped : call.member.capped = true) (h : Capped limit response call.timer w reading) :
    Right decode parse limit response ⟨call,w,reading⟩ where
  settles _ := h.settles
  whole _ got hgot delivered hd := by
    obtain ⟨hcomplete,hlength⟩ := h.whole got hgot
    exact ⟨got,hcomplete,hlength,hd⟩
  cut _ hw hcase := h.cut hw hcase
  second _ hc := h.second hc
  others hno := absurd hcapped (by rw [hno]; exact Bool.false_ne_true)

theorem right_uncapped (decode : Bytes → Text) (parse : Text → Option J)
    (hno : call.member.capped = false)
    (h : ∀ bytes, reading.outcome = .ok bytes → bytes.length ≤ limit) :
    Right decode parse limit response ⟨call,w,reading⟩ := by
  have hcapped : call.member.capped ≠ true := by
    rw [hno]
    exact Bool.false_ne_true
  exact ⟨fun hm => absurd hm hcapped,fun hm => absurd hm hcapped,fun hm => absurd hm hcapped,
    fun hm => absurd hm hcapped,fun _ => h⟩

theorem access_right (decode : Bytes → Text) (parse : Text → Option J)
    (hkept : Kept response w) (hin : InCap limit response call w)
    (h : access url limit response call w = some (reading,v)) :
    Right decode parse limit response ⟨call,w,reading⟩ ∧ Kept response v := by
  obtain ⟨member,timer,clones⟩ := call
  have hwhole : wholeBody w = (reading,v) → member.capped = false →
      w.unusable = true ∨ w.left.length ≤ limit →
        Right decode parse limit response ⟨⟨member,timer,clones⟩,w,reading⟩ ∧ Kept response v := by
    intro heq hno hlimit
    have hv := kept_wholeBody hkept
    rw [heq] at hv
    refine ⟨right_uncapped decode parse hno fun bytes hb => ?_,hv⟩
    refine wholeBody_length hlimit ?_
    rw [heq]
    exact hb
  cases member with
  | text => exact ⟨(capped_readBytes hkept hin h).right decode parse rfl,kept_readBytes hkept h⟩
  | json => exact ⟨(capped_readBytes hkept hin h).right decode parse rfl,kept_readBytes hkept h⟩
  | arrayBuffer =>
    exact ⟨(capped_readBytes hkept hin h).right decode parse rfl,kept_readBytes hkept h⟩
  | blob => exact hwhole (Option.some.inj h) rfl hin
  | bytes => exact hwhole (Option.some.inj h) rfl hin
  | formData => exact hwhole (Option.some.inj h) rfl hin
  | clone =>
    have heq : clone w = (reading,v) := Option.some.inj h
    have hv := kept_clone hkept
    rw [heq] at hv
    refine ⟨right_uncapped decode parse rfl fun bytes hb => clone_length hin ?_,hv⟩
    rw [heq]
    exact hb
  | body count leave =>
    have heq : readStream count leave w = (reading,v) := Option.some.inj h
    have hv := kept_readStream count leave hkept
    rw [heq] at hv
    refine ⟨right_uncapped decode parse rfl fun bytes hb =>
      readStream_length count leave hin ?_,hv⟩
    rw [heq]
    exact hb

theorem body_capped (decode : Bytes → Text) (parse : Text → Option J) (url : Text) (limit : Nat)
    (response : Response) (start s : Session) (hstart : fetchWithTimeout response = some start)
    (hs : (machine url limit response).ReachesBy
      (fun s call _ => InCap limit response call s.wrapper) start s) :
    ∀ use ∈ s.uses, Right decode parse limit response use := by
  have hfresh := (Option.ite_none_left_eq_some.1 hstart).2
  have hkept : Kept response s.wrapper ∧ ∀ use ∈ s.uses, Right decode parse limit response use := by
    refine hs.invariant (P := fun s => Kept response s.wrapper ∧
      ∀ use ∈ s.uses, Right decode parse limit response use) ?_ ?_
    · obtain rfl := Option.some.inj hfresh
      exact ⟨⟨id,fun _ => rfl,fun h => (by cases h)⟩,fun use hu => (by cases hu)⟩
    · intro a call b ha hstep hin
      obtain ⟨⟨reading,v⟩,haccess,heq⟩ := Option.map_eq_some_iff.1 hstep
      obtain ⟨hright,hv⟩ := access_right decode parse ha.1 hin haccess
      subst heq
      refine ⟨hv,fun use hu => ?_⟩
      rcases List.mem_append.1 hu with hu | hu
      · exact ha.2 use hu
      · rw [List.mem_singleton.1 hu]
        exact hright
  exact hkept.2

def latin (bytes : Bytes) : Text := bytes.map fun byte => Char.ofNat byte.toNat

def brackets : Response := ⟨200,some 2,some ⟨[[91],[93]],.closed⟩⟩

def overdeclared : Response := { brackets with declared := some 3 }

def never (member : Member) : Call := ⟨member,.never,.open_⟩

def empty : Response := ⟨204,none,none⟩

def teed : Wrapper := { fresh brackets with teed := true }

def readTeed : Wrapper := { teed.read with bodyConsumed := true }

/-- The body is cloned and read, and a second read throws. -/
theorem body_capped_brackets :
    Right latin some 2 brackets ⟨never .clone,fresh brackets,⟨.ok [91,93],false⟩⟩ ∧
      Right latin some 2 brackets ⟨never .text,teed,⟨.ok [91,93],false⟩⟩ ∧
      Right latin some 2 brackets ⟨never .json,readTeed,⟨.error .consumed,false⟩⟩ := by
  have hclone : (machine [] 2 brackets).step (never .clone) ⟨fresh brackets,[]⟩ =
      some ⟨teed,[⟨never .clone,fresh brackets,⟨.ok [91,93],false⟩⟩]⟩ := rfl
  have hread : (machine [] 2 brackets).step (never .text)
      ⟨teed,[⟨never .clone,fresh brackets,⟨.ok [91,93],false⟩⟩]⟩ =
        some ⟨readTeed,[⟨never .clone,fresh brackets,⟨.ok [91,93],false⟩⟩,
          ⟨never .text,teed,⟨.ok [91,93],false⟩⟩]⟩ := rfl
  have hagain : (machine [] 2 brackets).step (never .json)
      ⟨readTeed,[⟨never .clone,fresh brackets,⟨.ok [91,93],false⟩⟩,
        ⟨never .text,teed,⟨.ok [91,93],false⟩⟩]⟩ =
          some ⟨readTeed,[⟨never .clone,fresh brackets,⟨.ok [91,93],false⟩⟩,
            ⟨never .text,teed,⟨.ok [91,93],false⟩⟩,
            ⟨never .json,readTeed,⟨.error .consumed,false⟩⟩]⟩ := rfl
  have hin : InCap.Read 2 brackets (never .text) teed := by
    refine ⟨fun h => (by cases h),fun _ h => (by cases h),fun _ n stream hn => (by cases hn),
      fun _ _ hcut => ?_⟩
    rcases hcut with ⟨stream,_,hb | ⟨n,hn,_⟩⟩ | hover | hdeclared
    · cases hb
    · cases hn
    · exact absurd hover (by decide)
    · exact absurd hdeclared (by unfold Response.declaresOver; decide)
  have hsecond : InCap.Read 2 brackets (never .json) readTeed :=
    ⟨fun _ => ⟨by decide,rfl⟩,fun h => (by cases h),fun h => (by cases h.1),
      fun h => (by cases h.1)⟩
  have hall := body_capped latin some [] 2 brackets ⟨fresh brackets,[]⟩ _ rfl
    ((((Machine.ReachesBy.refl _).snoc hclone (.inr (by decide))).snoc hread hin).snoc hagain
      hsecond)
  exact ⟨hall _ (by simp),hall _ (by simp),hall _ (by simp)⟩

def AlwaysRight (limit : Nat) : Prop := ∀ response start s, fetchWithTimeout response = some start →
  (machine [] limit response).Reaches start s → ∀ use ∈ s.uses, Right latin some limit response use

theorem body_truncated : ¬AlwaysRight 2 ∧
    (∃ s, (machine [] 2 brackets).Reaches ⟨fresh brackets,[]⟩ s ∧
      s.uses.map (·.reading) = [⟨.ok [91],true⟩]) ∧
    (∃ s, (machine [] 2 empty).Reaches ⟨fresh empty,[]⟩ s ∧
      s.uses.map (·.reading.outcome) = [.ok [],.ok []]) ∧
    (∃ s, (machine [] 1 brackets).Reaches ⟨fresh brackets,[]⟩ s ∧
      s.uses.map (·.reading.outcome) = [.ok [91,93]]) ∧
    (∃ s, (machine [] 2 overdeclared).Reaches ⟨fresh overdeclared,[]⟩ s ∧
      s.uses.map (·.reading) = [⟨.ok [91,93],false⟩,⟨.pending,false⟩]) ∧
    ∃ s, (machine [] 2 brackets).Reaches ⟨fresh brackets,[]⟩ s ∧
      s.uses.map (·.reading.outcome) = [.ok [91],.ok [93]] := by
  have hcut : (machine [] 2 brackets).run [⟨.text,.waiting 1,.open_⟩] ⟨fresh brackets,[]⟩ =
      some ⟨{ (fresh brackets).read with bodyConsumed := true },
        [⟨⟨.text,.waiting 1,.open_⟩,fresh brackets,⟨.ok [91],true⟩⟩]⟩ := rfl
  have htwice : ((machine [] 2 empty).run [never .text,never .text] ⟨fresh empty,[]⟩).isSome =
      true := rfl
  have hblob : ((machine [] 1 brackets).run [never .blob] ⟨fresh brackets,[]⟩).isSome = true := rfl
  have hclone : ((machine [] 2 overdeclared).run [never .clone,never .text]
      ⟨fresh overdeclared,[]⟩).isSome = true := rfl
  have hrest : ((machine [] 2 brackets).run [never (.body 1 .released),never .text]
      ⟨fresh brackets,[]⟩).isSome = true := rfl
  refine ⟨fun h => ?_,⟨_,.of_run hcut,rfl⟩,⟨_,Machine.reaches_run htwice,rfl⟩,
    ⟨_,Machine.reaches_run hblob,rfl⟩,⟨_,Machine.reaches_run hclone,rfl⟩,
    ⟨_,Machine.reaches_run hrest,rfl⟩⟩
  have hright := h brackets _ _ rfl (.of_run hcut) _ (List.mem_singleton_self _)
  obtain ⟨⟨failure,hfailure⟩,_⟩ := hright.cut rfl ⟨rfl,rfl⟩
    (.inl ⟨_,rfl,.inr ⟨1,rfl,Nat.le_succ 1⟩⟩)
  cases hfailure

end results

end Yurucommu.FederationBody
