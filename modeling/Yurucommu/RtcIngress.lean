import Yurucommu.RtcEnvelope

/-!
An envelope that was taken in is taken in again from its text, with the same text: its digest is
the one it was taken in with however often it is sent on, and no other envelope has it.
-/

set_option autoImplicit false

namespace Yurucommu.RtcEnvelope

open JsonText
open Utf16 (IsUnits utf8)

variable {ν : Type}

section members

variable {key : Units} {v : Json ν}

theorem plain_keys :
    Plain (["v","callId","from","to","type","media","sdp","candidates","sfuFocus","reason","ts",
      "ttlMs"].map JsString.units) ∧
    Plain (["candidate","sdpMid","sdpMLineIndex","usernameFragment"].map JsString.units) ∧
    Plain (["kind","url","token","room"].map JsString.units) ∧
    Plain (["result","envelope"].map JsString.units) ∧
    Plain (["v","callId","from","to","type","media","reason","ts","ttlMs"].map JsString.units) ∧
    Plain (["audio","video","rate"].map JsString.units) := by
  decide +kernel

theorem proper_candidate {raw : Json ν} {c : CallIceCandidate ν} (hraw : Proper raw)
    (h : parseCandidate raw = some c) : Proper c.toJson := by
  obtain ⟨candidate,hcandidate,rfl⟩ := Option.map_eq_some_iff.mp h
  refine @proper_defined _ [(JsString.units "candidate",some _),(JsString.units "sdpMid",some _),
    (JsString.units "sdpMLineIndex",some _),(JsString.units "usernameFragment",some _)]
    plain_keys.2.1 ?_
  simp only [List.forall_mem_cons]
  refine ⟨proper_some (.string (units_asString hraw hcandidate)),
    proper_some (proper_nullable (proper_string fun t ht => units_asString hraw ht)),
    proper_some (proper_nullable fun w hw => ?_),
    proper_some (proper_nullable (proper_string fun t ht => units_asString hraw ht)),
    fun _ hm => absurd hm List.not_mem_nil⟩
  obtain ⟨x,_,rfl⟩ := Option.map_eq_some_iff.mp hw
  exact .number x

theorem proper_focus {raw : Json ν} {f : SfuFocus} (hraw : Proper raw)
    (h : parseSfuFocus (some raw) = some (some f)) : Proper (f.toJson : Json ν) := by
  unfold parseSfuFocus at h
  split at h
  · cases h
  · cases h
  · rename_i raw' _ hsame
    cases hsame
    obtain ⟨kind,hkind,h⟩ := Option.bind_eq_some_iff.mp h
    obtain ⟨url,hurl,h⟩ := Option.map_eq_some_iff.mp h
    cases h
    refine proper_defined plain_keys.2.2.1 ?_
    simp only [List.forall_mem_cons]
    exact ⟨proper_some (.string (units_asString hraw hkind)),
      proper_some (.string (units_asString hraw hurl)),
      proper_string fun t ht => units_asString hraw ht,
      proper_string fun t ht => units_asString hraw ht,fun _ hm => absurd hm List.not_mem_nil⟩

theorem proper_candidates {cs : List (CallIceCandidate ν)} (hv : Proper v)
    (h : parseCandidates (v.get key) = some cs) : Proper (.array (cs.map (·.toJson))) := by
  unfold parseCandidates at h
  split at h
  · rename_i entries hentries
    cases h
    cases proper_get hv hentries with
    | array hall =>
      refine .array fun w hw => ?_
      obtain ⟨c,hc,rfl⟩ := List.mem_map.mp hw
      obtain ⟨raw,hraw,hc⟩ := List.mem_filterMap.mp hc
      exact proper_candidate (hall raw hraw) hc
  · cases h

theorem proper_sfuFocus {f : Option SfuFocus} (hv : Proper v)
    (h : parseSfuFocus (v.get key) = some f) :
    Proper (nullable (f.map (·.toJson)) : Json ν) := by
  cases f with
  | none => exact .null
  | some f =>
    cases hraw : v.get key with
    | none =>
      rw [hraw] at h
      cases h
    | some raw =>
      rw [hraw] at h
      exact proper_focus (proper_get hv hraw) h

theorem parseCandidate_toJson (c : CallIceCandidate ν) : parseCandidate c.toJson = some c := by
  obtain ⟨candidate,sdpMid,sdpMLineIndex,usernameFragment⟩ := c
  cases sdpMid <;> cases sdpMLineIndex <;> cases usernameFragment <;> rfl

theorem parseSfuFocus_toJson (f : Option SfuFocus) :
    parseSfuFocus (some (nullable (f.map (·.toJson)) : Json ν)) = some f := by
  cases f with
  | none => rfl
  | some f =>
    obtain ⟨kind,url,token,room⟩ := f
    cases token <;> cases room <;> rfl

end members

section reread

variable [Zero ν]

def plainNumber : Number ν → Option (Number ν)
  | .finite value => some (.finite value)
  | .minusZero => some (.finite 0)
  | .infinite _ => none

def CallIceCandidate.reread (c : CallIceCandidate ν) : CallIceCandidate ν :=
  { c with sdpMLineIndex := c.sdpMLineIndex.bind plainNumber }

def RtcSignalEnvelopeV1.reread (e : RtcSignalEnvelopeV1 ν) : RtcSignalEnvelopeV1 ν :=
  { e with
    media := e.media.map JsonText.reread
    candidates := e.candidates.map fun cs => cs.map (·.reread)
    ts := (plainNumber e.ts).getD e.ts
    ttlMs := (plainNumber e.ttlMs).getD e.ttlMs }

theorem rereadNumber_finite {x : Number ν} (h : isFinite x = true) :
    rereadNumber x = .number ((plainNumber x).getD x) := by
  cases x with
  | finite | minusZero => rfl
  | infinite => cases h

theorem toJson_rereadCandidate (c : CallIceCandidate ν) :
    reread c.toJson = c.reread.toJson := by
  obtain ⟨candidate,sdpMid,sdpMLineIndex,usernameFragment⟩ := c
  cases sdpMid <;> cases sdpMLineIndex with
  | none => cases usernameFragment <;> rfl
  | some x => cases x <;> cases usernameFragment <;> rfl

theorem toJson_rereadFocus (f : SfuFocus) : reread f.toJson = (f.toJson : Json ν) := by
  obtain ⟨kind,url,token,room⟩ := f
  cases token <;> cases room <;> rfl

theorem parseCandidates_reread (candidates : Option (List (CallIceCandidate ν))) :
    parseCandidates ((candidates.map fun cs => .array (cs.map (·.toJson))).map reread) =
      candidates.map fun cs => cs.map (·.reread) := by
  cases candidates with
  | none => rfl
  | some cs =>
    simp only [Option.map_some,reread,rereadAll_eq,parseCandidates,List.map_map,
      List.filterMap_map]
    congr 1
    induction cs with
    | nil => rfl
    | cons c cs ih =>
      rw [List.filterMap_cons_some (b := c.reread),ih,List.map_cons]
      rw [Function.comp_apply,Function.comp_apply,toJson_rereadCandidate,parseCandidate_toJson]

theorem parseSfuFocus_reread (sfuFocus : Option (Option SfuFocus)) :
    parseSfuFocus ((sfuFocus.map fun f => nullable (f.map (·.toJson)) : Option (Json ν)).map
      reread) = sfuFocus := by
  cases sfuFocus with
  | none => rfl
  | some f =>
    have hsame : reread (nullable (f.map (·.toJson))) = (nullable (f.map (·.toJson)) : Json ν) := by
      cases f with
      | none => rfl
      | some f => exact toJson_rereadFocus f
    rw [Option.map_some,Option.map_some,hsame,parseSfuFocus_toJson]

theorem isBoolean_reread (value : Option (Json ν)) :
    isBoolean (value.map reread) = isBoolean value := by
  cases value with
  | none => rfl
  | some v =>
    cases v with
    | number x => cases x <;> rfl
    | null | bool | string | array | object => rfl

theorem isCallMediaKind_reread (v : Json ν) : isCallMediaKind (reread v) = isCallMediaKind v := by
  have hobject : (reread v).isObject = v.isObject := by
    cases v with
    | number x => cases x <;> rfl
    | null | bool | string | array | object => rfl
  unfold isCallMediaKind
  rw [hobject,get_reread,get_reread,isBoolean_reread,isBoolean_reread]

end reread

section ingress

variable [LinearOrder ν] [Zero ν] [One ν] {v : Json ν} {e e' : RtcSignalEnvelopeV1 ν}
  {F : NumberFormat ν} {sha256 : List UInt8 → List UInt8}

structure Accepted (e : RtcSignalEnvelopeV1 ν) : Prop where
  acceptable : acceptable e.callId e.from_ e.to_ e.ts e.ttlMs = true
  media : ∀ m ∈ e.media, isCallMediaKind m = true
  sdp : e.sdp.all (fitsUtf8Bytes · maxRtcSdpBytes) = true
  reason : ∀ t ∈ e.reason, t.length ≤ 200
  proper : Proper e.toJson

omit [LinearOrder ν] [Zero ν] in
theorem keys_members (e : RtcSignalEnvelopeV1 ν) : Plain (e.members.map Prod.fst) := plain_keys.1

omit [LinearOrder ν] [Zero ν] [One ν] in
theorem signalTypes_texts : ∀ type ∈ signalTypes, (∀ u ∈ type.text, u < 0x10000) ∧
    (signalTypes.find? fun other => other.text = type.text) = some type := by
  decide +kernel

theorem units_text (type : RtcSignalType) : IsUnits type.text :=
  (signalTypes_texts type (by cases type <;> decide)).1

theorem parse_accepted (hv : Proper v) (h : parseRtcSignalEnvelope v = some e) : Accepted e := by
  simp only [parseRtcSignalEnvelope,Option.bind_eq_bind,Option.bind_eq_some_iff,
    Option.guard_eq_some'] at h
  obtain ⟨_,_,callId,hcallId,from_,hfrom,to_,hto,typeText,_,type,_,ts,hts,ttlMs,httl,_,hok,_,hsdp,
    h⟩ := h
  obtain rfl := Option.some.inj h
  refine ⟨hok,?_,hsdp,?_,?_⟩
  · intro m hm
    exact (Option.filter_eq_some_iff.mp hm).2
  · intro t ht
    obtain ⟨reason,_,rfl⟩ := Option.map_eq_some_iff.mp ht
    exact List.length_take_le 200 reason
  · refine proper_defined (keys_members _) ?_
    simp only [RtcSignalEnvelopeV1.members,List.forall_mem_cons]
    refine ⟨proper_some (.number _),proper_some (.string (units_asString hv hcallId)),
      proper_some (.string (units_asString hv hfrom)),
      proper_some (.string (units_asString hv hto)),proper_some (.string (units_text type)),?_,
      proper_string fun t ht => units_asString hv ht,?_,?_,?_,proper_some (.number _),
      proper_some (.number _),fun _ hm => absurd hm List.not_mem_nil⟩
    · exact fun m hm => proper_get hv (Option.filter_eq_some_iff.mp hm).1
    · intro w hw
      obtain ⟨cs,hcs,rfl⟩ := Option.map_eq_some_iff.mp hw
      exact proper_candidates hv hcs
    · intro w hw
      obtain ⟨f,hf,rfl⟩ := Option.map_eq_some_iff.mp hw
      exact proper_sfuFocus hv hf
    · refine proper_string fun t ht => ?_
      obtain ⟨reason,hreason,rfl⟩ := Option.map_eq_some_iff.mp ht
      exact fun u hu => units_asString hv hreason u (List.mem_of_mem_take hu)

theorem acceptable_reread (h : Accepted e) :
    acceptable e.reread.callId e.reread.from_ e.reread.to_ e.reread.ts e.reread.ttlMs = true := by
  have hok := h.acceptable
  obtain ⟨callId,from_,to_,type,media,sdp,candidates,sfuFocus,reason,ts,ttlMs⟩ := e
  cases ts with
  | infinite => simp [acceptable,isFinite] at hok
  | finite | minusZero =>
    cases ttlMs with
    | infinite => simp [acceptable,isFinite] at hok
    | finite => exact hok
    | minusZero =>
      have hzero : isNegative (.finite (0 : ν)) = false := decide_eq_false (lt_irrefl 0)
      unfold acceptable
      change (_ && !isNegative (.finite (0 : ν))) = true
      rw [hzero]
      exact hok

theorem find_text (type : RtcSignalType) :
    (signalTypes.find? fun other => other.text = type.text) = some type :=
  (signalTypes_texts type (by cases type <;> decide)).2

/-- The text of an envelope that was taken in is read as that envelope again. -/
theorem parse_reread (h : Accepted e) :
    parseRtcSignalEnvelope (reread e.toJson) = some e.reread := by
  have hget {key : Units} {value : Option (Json ν)} (n : Nat)
      (hn : e.members[n]? = some (key,value)) :
      (reread e.toJson).get key = value.map reread := by
    rw [get_reread]
    unfold RtcSignalEnvelopeV1.toJson
    rw [get_defined (keys_members e).1 (List.mem_of_getElem? hn)]
  have hok := h.acceptable
  simp only [acceptable,Bool.and_eq_true] at hok
  have hnumber {x : Number ν} (hx : isFinite x = true) :
      asNumber ((some (.number x)).map reread) = some ((plainNumber x).getD x) := by
    rw [Option.map_some,reread,rereadNumber_finite hx]
    rfl
  have hversion : isVersion ((some (.number (.finite (1 : ν)))).map reread) = true :=
    decide_eq_true rfl
  have hmedia : (e.media.map reread).filter isCallMediaKind = e.media.map reread := by
    cases hm : e.media with
    | none => rfl
    | some m =>
      rw [Option.map_some,Option.filter_some,isCallMediaKind_reread,h.media m hm,if_pos rfl]
  have hreason : e.reason.map (·.take 200) = e.reason := by
    cases hr : e.reason with
    | none => rfl
    | some t => rw [Option.map_some,List.take_of_length_le (h.reason t hr)]
  have hstring (t : Units) : asString ((some (.string t : Json ν)).map reread) = some t := rfl
  have hobject : (reread e.toJson).isObject = true := rfl
  have hacceptable : acceptable e.callId e.from_ e.to_ ((plainNumber e.ts).getD e.ts)
      ((plainNumber e.ttlMs).getD e.ttlMs) = true := acceptable_reread h
  unfold parseRtcSignalEnvelope
  rw [hget 0 rfl,hget 1 rfl,hget 2 rfl,hget 3 rfl,hget 4 rfl,hget 5 rfl,hget 6 rfl,hget 7 rfl,
    hget 8 rfl,hget 9 rfl,hget 10 rfl,hget 11 rfl]
  simp only [hobject,hversion,hstring,find_text,hnumber hok.1.1.2,hnumber hok.1.2,asString_reread,
    hmedia,parseCandidates_reread,parseSfuFocus_reread,hreason,Option.bind_eq_bind,
    Option.bind_some]
  rw [guard,if_pos ⟨trivial,trivial⟩,guard,if_pos hacceptable,guard,if_pos h.sdp]
  rfl

theorem toJson_reread (h : Accepted e) : e.reread.toJson = reread e.toJson := by
  have hok := h.acceptable
  simp only [acceptable,Bool.and_eq_true] at hok
  have hcandidates : (e.candidates.map fun cs => cs.map (·.reread)).map
      (fun cs => Json.array (cs.map (·.toJson))) =
        (e.candidates.map fun cs => Json.array (cs.map (·.toJson))).map reread := by
    cases e.candidates with
    | none => rfl
    | some cs =>
      simp only [Option.map_some,reread,rereadAll_eq,List.map_map]
      congr 2
      exact List.map_congr_left fun c _ => (toJson_rereadCandidate c).symm
  have hfocus : (e.sfuFocus.map fun f => (nullable (f.map (·.toJson)) : Json ν)).map reread =
      e.sfuFocus.map fun f => nullable (f.map (·.toJson)) := by
    cases e.sfuFocus with
    | none => rfl
    | some f =>
      cases f with
      | none => rfl
      | some f => exact congrArg some (toJson_rereadFocus f)
  have hstring (t : Option Units) :
      (t.map (Json.string (ν := ν))).map reread = t.map .string := by
    cases t <;> rfl
  have htext (t : Units) : reread (.string t : Json ν) = .string t := rfl
  have hversion : reread (.number (.finite (1 : ν))) = .number (.finite 1) := rfl
  have hnumber {x : Number ν} (hx : isFinite x = true) :
      reread (.number x) = .number ((plainNumber x).getD x) := rereadNumber_finite hx
  unfold RtcSignalEnvelopeV1.toJson
  rw [reread_defined]
  simp only [RtcSignalEnvelopeV1.members,RtcSignalEnvelopeV1.reread,List.map_cons,List.map_nil,
    hstring,hfocus,hcandidates,Option.map_some,htext,hversion,hnumber hok.1.1.2,
    hnumber hok.1.2]

theorem parse_sent (h : Accepted e) :
    (parse F (stringify F e.toJson)).bind parseRtcSignalEnvelope = some e.reread ∧
      stringify F e.reread.toJson = stringify F e.toJson ∧ Accepted e.reread := by
  have hread := parse_reread h
  have hsame := toJson_reread h
  refine ⟨?_,?_,parse_accepted h.proper.reread hread⟩
  · rw [parse_stringify h.proper,Option.bind_some,hread]
  · rw [hsame,stringify_reread h.proper]

theorem resent_sent (h : Accepted e) (n : Nat) : ∃ e', resent F n e = some e' ∧
    stringify F e'.toJson = stringify F e.toJson ∧ e'.to_ = e.to_ ∧ Accepted e' := by
  induction n generalizing e with
  | zero => exact ⟨e,rfl,rfl,rfl,h⟩
  | succ n ih =>
    obtain ⟨hread,htext,haccepted⟩ := parse_sent (F := F) h
    obtain ⟨e',hn,htext',hto,haccepted'⟩ := ih haccepted
    refine ⟨e',?_,htext'.trans htext,hto,haccepted'⟩
    rw [resent,hread,Option.bind_some,hn]

theorem hexDigits_inj {as bs : List UInt8}
    (h : as.flatMap hexDigits = bs.flatMap hexDigits) : as = bs := by
  have hdigit {m n : Nat} (hm : m < 16) (hn : n < 16) (hsame : hexDigit m = hexDigit n) :
      m = n := by
    unfold hexDigit at hsame
    split at hsame <;> split at hsame <;> omega
  induction as generalizing bs with
  | nil =>
    cases bs with
    | nil => rfl
    | cons b bs => cases h
  | cons a as ih =>
    cases bs with
    | nil => cases h
    | cons b bs =>
      rw [List.flatMap_cons,List.flatMap_cons] at h
      simp only [hexDigits,List.cons_append,List.nil_append,List.cons.injEq] at h
      obtain ⟨hhigh,hlow,hrest⟩ := h
      have ha := a.toNat_lt
      have hb := b.toNat_lt
      have hhigh := hdigit (by omega) (by omega) hhigh
      have hlow := hdigit (by omega) (by omega) hlow
      have hsame : a = b := UInt8.toNat.inj (by omega)
      rw [hsame,ih hrest]

/-- Two envelopes have one digest exactly if they have one text. -/
theorem callIngressDigest_eq (hsha : Function.Injective sha256) (h : Accepted e)
    (h' : Accepted e') : callIngressDigest F sha256 e' = callIngressDigest F sha256 e ↔
      stringify F e'.toJson = stringify F e.toJson := by
  refine ⟨fun hsame => ?_,fun hsame => by unfold callIngressDigest; rw [hsame]⟩
  have hbytes := hsha (hexDigits_inj hsame)
  exact (Utf16.utf8_inj (paired_stringify h'.proper) (paired_stringify h.proper)).mp hbytes

theorem continued_some {actor digest : Option Units} {body : Units} (hbody : IsUnits body)
    (h : continued F sha256 actor digest body = some e) :
    Accepted e ∧ some (callIngressDigest F sha256 e) = digest ∧ some e.to_ = actor := by
  obtain ⟨input,hinput,h⟩ := Option.bind_eq_some_iff.mp h
  obtain ⟨hread,hguard⟩ := Option.filter_eq_some_iff.mp h
  obtain ⟨value,hvalue,hread⟩ := Option.bind_eq_some_iff.mp hread
  simp only [Bool.and_eq_true,decide_eq_true_eq] at hguard
  exact ⟨parse_accepted (proper_get (parse_proper hbody hinput) hvalue) hread,hguard⟩

theorem continued_continuation (h : Accepted e) {result : Json ν} (hresult : Proper result) :
    continued F sha256 (some e.to_) (some (callIngressDigest F sha256 e))
      (continuation F result e) = some e.reread := by
  let members : List (Units × Option (Json ν)) :=
    [(JsString.units "result",some result),(JsString.units "envelope",some e.toJson)]
  have hkeys : Plain (members.map Prod.fst) := plain_keys.2.2.2.1
  have hproper : Proper (.object (defined members)) := by
    refine proper_defined hkeys ?_
    simp only [members,List.forall_mem_cons]
    exact ⟨proper_some hresult,proper_some h.proper,fun _ hm => absurd hm List.not_mem_nil⟩
  have hget : (reread (.object (defined members))).get (JsString.units "envelope") =
      some (reread e.toJson) := by
    have hmem : (JsString.units "envelope",some e.toJson) ∈ members :=
      List.mem_cons_of_mem _ List.mem_cons_self
    rw [get_reread,get_defined hkeys.1 hmem,Option.map_some]
  obtain ⟨_,htext,_⟩ := parse_sent (F := F) h
  have hdigest : callIngressDigest F sha256 e.reread = callIngressDigest F sha256 e := by
    unfold callIngressDigest
    rw [htext]
  have hbody : parse F (continuation F result e) = some (reread (.object (defined members))) :=
    parse_stringify hproper
  unfold continued
  rw [hbody,Option.bind_some,hget,Option.bind_some,parse_reread h,Option.filter_some,hdigest]
  rw [if_pos]
  simp only [decide_true,Bool.true_and,decide_eq_true_eq]
  rfl

/-- An envelope that was taken in survives its text: it is read again as an envelope of the same
text, however often it is sent on; the call goes on with it; and it goes on with no envelope of
another text. -/
theorem ingress_survives (F : NumberFormat ν) (hsha : Function.Injective sha256) (hv : Proper v)
    (h : parseRtcSignalEnvelope v = some e) :
    (∃ e', (parse F (stringify F e.toJson)).bind parseRtcSignalEnvelope = some e' ∧
      stringify F e'.toJson = stringify F e.toJson) ∧
    (∀ n, ∃ e', resent F n e = some e' ∧ ∀ result, Proper result →
      ∃ e'', continued F sha256 (some e.to_) (some (callIngressDigest F sha256 e))
        (continuation F result e') = some e'' ∧
          stringify F e''.toJson = stringify F e.toJson) ∧
    ∀ body, IsUnits body → ∀ actor e',
      continued F sha256 actor (some (callIngressDigest F sha256 e)) body = some e' →
        stringify F e'.toJson = stringify F e.toJson := by
  have haccepted := parse_accepted hv h
  refine ⟨?_,fun n => ?_,fun body hbody actor e' hgoes => ?_⟩
  · obtain ⟨hread,htext,_⟩ := parse_sent (F := F) haccepted
    exact ⟨_,hread,htext⟩
  · obtain ⟨e',hn,htext,hto,haccepted'⟩ := resent_sent (F := F) haccepted n
    refine ⟨e',hn,fun result hresult => ⟨e'.reread,?_,?_⟩⟩
    · have hgoes : continued F sha256 (some e'.to_) (some (callIngressDigest F sha256 e'))
          (continuation F result e') = some e'.reread :=
        continued_continuation haccepted' hresult
      rw [← hto,← (callIngressDigest_eq hsha haccepted haccepted').mpr htext]
      exact hgoes
    · exact (parse_sent (F := F) haccepted').2.1.trans htext
  · obtain ⟨haccepted',hdigest,_⟩ := continued_some hbody hgoes
    exact (callIngressDigest_eq hsha haccepted haccepted').mp (Option.some.inj hdigest)

end ingress

section offer

/-- An offer whose media have a member that JSON cannot keep, and whose time to live is minus
zero. -/
def offer : Json ℤ :=
  .object [(JsString.units "v",.number (.finite 1)),(JsString.units "callId",.string [99]),
    (JsString.units "from",.string [97]),(JsString.units "to",.string [98]),
    (JsString.units "type",.string (JsString.units "offer")),
    (JsString.units "media",.object [(JsString.units "audio",.bool true),
      (JsString.units "video",.bool false),(JsString.units "rate",.number (.infinite false))]),
    (JsString.units "reason",.string [0xd83d]),
    (JsString.units "ts",.number (.finite 5)),(JsString.units "ttlMs",.number .minusZero)]

def offerBytes : List UInt8 :=
  ((parseRtcSignalEnvelope offer).map fun e => utf8 (stringify integerFormat e.toJson)).getD []

/-- The digest of these bytes; other bytes are kept apart from them and from each other. -/
def offerSha256 (bytes : List UInt8) : List UInt8 :=
  if bytes = offerBytes then [
    17,14,255,46,181,94,128,55,107,226,165,5,136,135,217,130,
    75,176,60,135,118,198,169,92,46,43,192,19,217,194,125,94]
  else 0 :: bytes

theorem offerSha256_injective : Function.Injective offerSha256 := by
  intro as bs h
  unfold offerSha256 at h
  split at h <;> split at h
  · simp_all
  · cases h
  · cases h
  · exact (List.cons.inj h).2

theorem proper_offer : Proper offer := by
  have hkeys := plain_keys.2.2.2.2
  have hunits (t : Units) (h : ∀ u ∈ t, u < 0x10000) : Proper (.string t : Json ℤ) := .string h
  refine @proper_defined _ [(_,some _),(_,some _),(_,some _),(_,some _),(_,some _),
    (_,some _),(_,some _),(_,some _),(_,some _)] hkeys.1 ?_
  simp only [List.forall_mem_cons]
  refine ⟨proper_some (.number _),proper_some (hunits _ (by decide)),
    proper_some (hunits _ (by decide)),proper_some (hunits _ (by decide)),
    proper_some (hunits _ (by decide +kernel)),proper_some ?_,proper_some (hunits _ (by decide)),
    proper_some (.number _),proper_some (.number _),fun _ hm => absurd hm List.not_mem_nil⟩
  refine @proper_defined _ [(_,some _),(_,some _),(_,some _)] hkeys.2 ?_
  simp only [List.forall_mem_cons]
  exact ⟨proper_some (.bool true),proper_some (.bool false),proper_some (.number _),
    fun _ hm => absurd hm List.not_mem_nil⟩

/-- The offer is read again, with the same text. -/
theorem ingress_survives_offer : ∃ e e', parseRtcSignalEnvelope offer = some e ∧
    (parse integerFormat (stringify integerFormat e.toJson)).bind parseRtcSignalEnvelope =
      some e' ∧ stringify integerFormat e'.toJson = stringify integerFormat e.toJson := by
  have hread : (parseRtcSignalEnvelope offer).isSome = true := by decide +kernel
  obtain ⟨e,he⟩ := Option.isSome_iff_exists.mp hread
  obtain ⟨⟨e',hparse,htext⟩,_⟩ :=
    ingress_survives integerFormat offerSha256_injective proper_offer he
  exact ⟨e,e',he,hparse,htext⟩

end offer

end Yurucommu.RtcEnvelope
