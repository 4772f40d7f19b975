import MqProxy.Client.MitmHead
import MqProxy.Library.Labels
import MqProxy.Server.OriginTypes

/-!
# Where a request goes, and its path

`key.rs` and `request.rs` of `mq-proxy/src/server/origin`. The pool is keyed by the text of the
host: **`origin_key`** says that the text names the host again, for an authority with a bracket in
front or at most one colon, so that an address and a name share no key. `build_request` resolves the dot segments of the path: **`dot_segments_removed`** relates the
rewriting loop to a fold of the segments over a stack.
-/

namespace MqProxy.Server.Origin

open MqProxy.Http MqProxy.Library MqProxy.Runtime MqProxy.Ingress
open MqProxy.Ingress.HttpConnect (ascii rposition rposition_eq_none rposition_append_cons findIdx?_eq_none parseHost
  stripBracket)
open MqProxy.Ingress.NetParser
open MqProxy.Client (parseIpAddr getElem?_of_rposition)

/-! ### The key of a connection -/

/-- `host_of`. -/
def hostOf (keyHost : String) : Host := (parseIpAddr (asBytes keyHost)).elim (.domain keyHost) .ip

variable {n : ℕ} {s s' : List UInt8}

variable {scheme : Scheme} {a : List UInt8} {p : UInt16}

/-- The output up to its last slash. -/
def popSegment (out : List UInt8) : List UInt8 := out.take ((rposition 0x2F out).getD 0)

/-- Where the first segment of the input ends. -/
def segmentEnd (input : List UInt8) : ℕ := (input.tail.findIdx? (· = 0x2F)).elim input.length (· + 1)

/-- The loop of `remove_dot_segments`. -/
def dotLoop (input out : List UInt8) : List UInt8 :=
  if _hne : input = [] then out
  else if (ascii "../").isPrefixOf input then dotLoop (input.drop 3) out
  else if (ascii "./").isPrefixOf input then dotLoop (input.drop 2) out
  else if (ascii "/./").isPrefixOf input then dotLoop (input.drop 2) out
  else if _h : input = ascii "/." then dotLoop (ascii "/") out
  else if (ascii "/../").isPrefixOf input then dotLoop (input.drop 3) (popSegment out)
  else if _h : input = ascii "/.." then dotLoop (ascii "/") (popSegment out)
  else if input = ascii "." ∨ input = ascii ".." then dotLoop [] out
  else dotLoop (input.drop (segmentEnd input)) (out ++ input.take (segmentEnd input))
termination_by input.length
decreasing_by
  all_goals have hpos := List.length_pos_iff.mpr _hne
  · rw [List.length_drop]; omega
  · rw [List.length_drop]; omega
  · rw [List.length_drop]; omega
  · rw [_h]; decide
  · rw [List.length_drop]; omega
  · rw [_h]; decide
  · exact hpos
  · have hend : 0 < segmentEnd input := by
      rw [segmentEnd]
      cases input.tail.findIdx? (· = 0x2F) with
      | none => exact hpos
      | some i => exact Nat.succ_pos i
    rw [List.length_drop]
    omega

/-- `remove_dot_segments`. -/
def removeDotSegments (input : List UInt8) : List UInt8 := dotLoop input []

/-- `StartErr`. -/
inductive StartErr where
  | badAuthority
  | badPath
  deriving DecidableEq

/-- `StoredRequest`. -/
structure StoredRequest where
  method : Method
  scheme : Scheme
  authority : List UInt8
  path : List UInt8
  headers : List Field
  body : UploadBuf

/-- `http::Request`, with the upload for its body. -/
structure OriginRequest where
  method : List UInt8
  uri : List UInt8
  headers : List Field
  body : UploadBuf

/-- The path of a request without its query, and the query. -/
def splitQuery (path : List UInt8) : List UInt8 × List UInt8 :=
  path.splitAt ((path.findIdx? (· = 0x3F)).getD path.length)

/-- What stands before the path of a URI: nothing in the origin form, the origin in the absolute one. -/
def uriOrigin (req : StoredRequest) (proto : OriginProto) : List UInt8 :=
  if proto = .h2 then ascii (if req.scheme = .http then "http://" else "https://") ++ req.authority else []

/-- The URI of a request. -/
def requestUri (req : StoredRequest) (proto : OriginProto) : List UInt8 :=
  uriOrigin req proto ++ removeDotSegments (splitQuery req.path).1 ++ (splitQuery req.path).2

/-- The request that `build_request` puts together. -/
def originRequest (req : StoredRequest) (proto : OriginProto) : OriginRequest where
  method := req.method
  uri := requestUri req proto
  headers := (ascii "host", req.authority) ::
    (if req.headers.any (named "accept") then [] else [(ascii "accept", ascii "*/*")]) ++ req.headers ++
    if req.body.fin && req.body.data = [] then []
    else
      match req.body.cl with
      | some cl => [(ascii "content-length", ascii (toString cl))]
      | none => if proto = .h1 then [(ascii "transfer-encoding", ascii "chunked")] else []
  body := req.body

/-- `build_request`; `builds` says whether the `http` crate takes the parts. -/
def buildRequest (builds : OriginRequest → Bool) (req : StoredRequest) (proto : OriginProto) :
    Except StartErr OriginRequest :=
  if builds (originRequest req proto) then .ok (originRequest req proto) else .error .badPath

/-! ### Segments on a stack -/

/-- The segments of a path that starts with a slash. -/
def segments (path : List UInt8) : List (List UInt8) := path.tail.splitOn 0x2F

/-- A path from its segments. -/
def join (segs : List (List UInt8)) : List UInt8 := segs.flatMap (0x2F :: ·)

/-- `.` or `..`. -/
def IsDot (s : List UInt8) : Prop := s = ascii "." ∨ s = ascii ".."

instance (s : List UInt8) : Decidable (IsDot s) := inferInstanceAs (Decidable (_ ∨ _))

/-- One segment more: `.` keeps the stack, `..` pops it. -/
def pushSegment (stack : List (List UInt8)) (s : List UInt8) : List (List UInt8) :=
  if s = ascii "." then stack else if s = ascii ".." then stack.dropLast else stack ++ [s]

/-- The stack after all segments; a slash stays where the last one was a dot segment. -/
def resolve (stack segs : List (List UInt8)) : List (List UInt8) :=
  segs.foldl pushSegment stack ++ if segs.getLast?.any (IsDot ·) then [[]] else []

/-- No segment has a slash. -/
def Cut (segs : List (List UInt8)) : Prop := ∀ s ∈ segs, 0x2F ∉ s

@[simp] theorem join_nil : join [] = [] := rfl

@[simp] theorem join_cons (s : List UInt8) (segs : List (List UInt8)) : join (s :: segs) = 0x2F :: s ++ join segs := rfl

@[simp] theorem join_append (segs segs' : List (List UInt8)) : join (segs ++ segs') = join segs ++ join segs' :=
  List.flatMap_append

theorem join_eq_intercalate {segs : List (List UInt8)} (h : segs ≠ []) :
    join segs = 0x2F :: [0x2F].intercalate segs := by
  induction segs with
  | nil => exact absurd rfl h
  | cons s segs ih =>
    cases segs with
    | nil => simp
    | cons s' segs =>
      rw [join_cons, ih (List.cons_ne_nil _ _), List.intercalate_cons_cons]
      simp

theorem join_segments {path : List UInt8} (h : path.head? = some 0x2F) : join (segments path) = path := by
  obtain ⟨t, rfl⟩ := List.head?_eq_some_iff.mp h
  rw [segments, join_eq_intercalate (List.splitOn_ne_nil _ _), List.intercalate_splitOn, List.tail_cons]

theorem segments_join {segs : List (List UInt8)} (hcut : Cut segs) (h : segs ≠ []) : segments (join segs) = segs := by
  rw [segments, join_eq_intercalate h, List.tail_cons, List.splitOn_intercalate _ hcut h]

theorem cut_segments (path : List UInt8) : Cut (segments path) := fun _ hs => notMem_of_mem_splitOn hs

/-! ### The loop, segment by segment -/

variable {s : List UInt8} {segs stack : List (List UInt8)}

theorem segmentEnd_join (hs : 0x2F ∉ s) (segs : List (List UInt8)) :
    segmentEnd (join (s :: segs)) = s.length + 1 := by
  rw [segmentEnd, join_cons, List.cons_append, List.tail_cons, List.findIdx?_append, findIdx?_eq_none.mpr hs]
  cases segs <;> simp [List.findIdx?_cons]

theorem popSegment_join (hcut : Cut stack) : popSegment (join stack) = join stack.dropLast := by
  rcases List.eq_nil_or_concat stack with rfl | ⟨init, s, rfl⟩
  · rfl
  · have hs : 0x2F ∉ s := hcut s (by simp)
    rw [List.concat_eq_append, join_append, join_cons, join_nil, List.append_nil, popSegment,
      rposition_append_cons _ hs, List.dropLast_concat]
    simp

/-- **An iteration of the loop takes a segment.** A dot segment at the end leaves a slash. -/
theorem dotLoop_join (hs : 0x2F ∉ s) (segs : List (List UInt8)) (out : List UInt8) :
    dotLoop (join (s :: segs)) out =
      if s = ascii "." then dotLoop (join (if segs = [] then [[]] else segs)) out
      else if s = ascii ".." then dotLoop (join (if segs = [] then [[]] else segs)) (popSegment out)
      else dotLoop (join segs) (out ++ 0x2F :: s) := by
  have hup : ¬(ascii "../").isPrefixOf (join (s :: segs)) = true := by simp [ascii]
  have hhere : ¬(ascii "./").isPrefixOf (join (s :: segs)) = true := by simp [ascii]
  have hend : ¬(join (s :: segs) = ascii "." ∨ join (s :: segs) = ascii "..") := by simp [ascii]
  have hnil : join (s :: segs) ≠ [] := List.cons_ne_nil _ _
  have htake : (join (s :: segs)).take (segmentEnd (join (s :: segs))) = 0x2F :: s ∧
      (join (s :: segs)).drop (segmentEnd (join (s :: segs))) = join segs := by
    have hlength : s.length + 1 = (0x2F :: s).length := rfl
    rw [segmentEnd_join hs, join_cons, hlength]
    exact ⟨List.take_left, List.drop_left⟩
  rw [dotLoop, dif_neg hnil, if_neg hup, if_neg hhere, if_neg hend, htake.1, htake.2]
  -- two bytes of the segment, and whether one follows, decide the branch
  rcases s with _ | ⟨b, _ | ⟨c, _ | ⟨d, s⟩⟩⟩ <;> cases segs <;> simp [ascii] at hs ⊢ <;> grind

/-- What holds of the stack and of a segment that is no dot segment. -/
theorem forall_pushSegment {P : List UInt8 → Prop} (hstack : ∀ t ∈ stack, P t) (hs : ¬IsDot s → P s) :
    ∀ t ∈ pushSegment stack s, P t := by
  intro t ht
  rw [pushSegment] at ht
  split_ifs at ht with h1 h2
  · exact hstack t ht
  · exact hstack t (List.mem_of_mem_dropLast ht)
  · rcases List.mem_append.mp ht with ht | ht
    · exact hstack t ht
    · exact List.mem_singleton.mp ht ▸ hs (not_or.mpr ⟨h1, h2⟩)

/-- The loop is the fold over the stack. -/
theorem dotLoop_resolve (hcut : Cut segs) (hne : segs ≠ []) (hstack : Cut stack) :
    dotLoop (join segs) (join stack) = join (resolve stack segs) := by
  have hnil (out : List UInt8) : dotLoop [] out = out := by rw [dotLoop, dif_pos rfl]
  have hslash (stack : List (List UInt8)) : dotLoop (join [[]]) (join stack) = join (stack ++ [[]]) := by
    rw [dotLoop_join List.not_mem_nil, if_neg (by decide), if_neg (by decide), join_nil, hnil, join_append]
    rfl
  induction segs generalizing stack with
  | nil => exact absurd rfl hne
  | cons s segs ih =>
    have hs := hcut s List.mem_cons_self
    have hout : dotLoop (join (s :: segs)) (join stack) =
        dotLoop (join (if IsDot s ∧ segs = [] then [[]] else segs)) (join (pushSegment stack s)) := by
      rw [dotLoop_join hs, popSegment_join hstack, pushSegment]
      by_cases h1 : s = ascii "."
      · simp [h1, IsDot]
      by_cases h2 : s = ascii ".."
      · rw [if_neg h1, if_neg h1, if_pos h2, if_pos h2]
        simp [h2, IsDot]
      · simp [h1, h2, IsDot]
    rw [hout]
    cases segs with
    | nil =>
      by_cases hd : IsDot s
      · rw [if_pos ⟨hd, rfl⟩, hslash]
        simp [resolve, hd]
      · rw [if_neg fun h => hd h.1, join_nil, hnil]
        simp [resolve, hd]
    | cons s' segs =>
      rw [if_neg fun h => List.cons_ne_nil _ _ h.2,
        ih (fun t ht => hcut t (List.mem_cons_of_mem _ ht)) (List.cons_ne_nil _ _) 
          (forall_pushSegment hstack fun _ => hs)]
      rfl

/-! ### What is left -/

theorem forall_resolve {P : List UInt8 → Prop} (hstack : ∀ t ∈ stack, P t) (hsegs : ∀ t ∈ segs, ¬IsDot t → P t)
    (hnil : P []) : ∀ t ∈ resolve stack segs, P t := by
  have hfold : ∀ t ∈ segs.foldl pushSegment stack, P t := by
    induction segs generalizing stack with
    | nil => exact hstack
    | cons s segs ih =>
      exact ih (forall_pushSegment hstack (hsegs s List.mem_cons_self)) fun t ht => hsegs t (List.mem_cons_of_mem _ ht)
  intro t ht
  rw [resolve, List.mem_append] at ht
  rcases ht with ht | ht
  · exact hfold t ht
  · split at ht
    · exact List.mem_singleton.mp ht ▸ hnil
    · cases ht

theorem resolve_ne_nil (hne : segs ≠ []) : resolve stack segs ≠ [] := by
  obtain ⟨init, s, rfl⟩ := (List.eq_nil_or_concat segs).resolve_left hne
  by_cases hd : IsDot s
  · simp [resolve, hd]
  · have hd' := not_or.mp hd
    simp [resolve, pushSegment, hd'.1, hd'.2]

/-- Segments that are no dot segments stay as they are. -/
theorem resolve_of_not_isDot (h : ∀ t ∈ segs, ¬IsDot t) : resolve stack segs = stack ++ segs := by
  have hfold : segs.foldl pushSegment stack = stack ++ segs := by
    induction segs generalizing stack with
    | nil => simp
    | cons s segs ih =>
      have hs := not_or.mp (h s List.mem_cons_self)
      rw [List.foldl_cons, pushSegment, if_neg hs.1, if_neg hs.2, ih fun t ht => h t (List.mem_cons_of_mem _ ht),
        List.append_assoc]
      rfl
  have hlast : segs.getLast?.any (IsDot ·) = false := by
    cases hl : segs.getLast? with
    | none => rfl
    | some t => simpa using h t (List.mem_of_getLast? hl)
  rw [resolve, hfold, hlast]
  simp

/-- A segment gives at most its own bytes; a dot segment leaves room for a slash. -/
theorem length_pushSegment_le : (join (pushSegment stack s)).length + (if IsDot s then 1 else 0) ≤
    (join stack).length + (s.length + 1) := by
  by_cases h1 : s = ascii "."
  · rw [pushSegment, if_pos h1, if_pos (show IsDot s from Or.inl h1)]
    omega
  by_cases h2 : s = ascii ".."
  · have hpop : (join stack.dropLast).length ≤ (join stack).length := by
      rcases List.eq_nil_or_concat stack with rfl | ⟨init, t, rfl⟩ <;> simp
    rw [pushSegment, if_neg h1, if_pos h2, if_pos (show IsDot s from Or.inr h2)]
    omega
  · rw [pushSegment, if_neg h1, if_neg h2, if_neg (show ¬IsDot s from not_or.mpr ⟨h1, h2⟩)]
    simp

theorem length_resolve_le (stack segs : List (List UInt8)) :
    (join (resolve stack segs)).length ≤ (join stack).length + (join segs).length := by
  induction segs generalizing stack with
  | nil => simp [resolve]
  | cons s segs ih =>
    have hpush := @length_pushSegment_le s stack
    cases segs with
    | nil =>
      by_cases hd : IsDot s <;> simp [resolve, hd] at hpush ⊢ <;> omega
    | cons s' segs =>
      have hrest := ih (pushSegment stack s)
      have hresolve : resolve stack (s :: s' :: segs) = resolve (pushSegment stack s) (s' :: segs) := rfl
      rw [hresolve, join_cons, List.length_append, List.length_cons]
      omega

/-- The query is what comes from the first question mark on. -/
theorem splitQuery_spec (path : List UInt8) :
    (splitQuery path).1 ++ (splitQuery path).2 = path ∧ 0x3F ∉ (splitQuery path).1 ∧
      ∀ b, (splitQuery path).2.head? = some b → b = 0x3F := by
  rw [splitQuery, List.splitAt_eq]
  refine ⟨List.take_append_drop _ _, ?_⟩
  cases hq : path.findIdx? (· = 0x3F) with
  | none =>
    rw [List.findIdx?_eq_none_iff] at hq
    simp only [Option.getD_none, List.take_length, List.drop_length]
    exact ⟨fun hmem => by simpa using hq _ hmem, fun b hb => by cases hb⟩
  | some i =>
    obtain ⟨hi, hget, hbefore⟩ := List.findIdx?_eq_some_iff_getElem.mp hq
    refine ⟨fun hmem => ?_, fun b hb => ?_⟩
    · rw [Option.getD_some] at hmem
      obtain ⟨j, hj, hget'⟩ := List.mem_take_iff_getElem.mp hmem
      exact hbefore j (by omega) (decide_eq_true hget')
    · rw [Option.getD_some, List.head?_drop, List.getElem?_eq_getElem hi, Option.some.injEq] at hb
      exact hb ▸ of_decide_eq_true hget

/-- **Dot segments are removed**: the loop ends with what the fold over the stack leaves, and `build_request`
applies it to the path alone. -/
theorem dot_segments_removed :
    (∀ path : List UInt8, path.head? = some 0x2F →
      removeDotSegments path = join (resolve [] (segments path)) ∧
        (removeDotSegments path).head? = some 0x2F ∧
        (∀ s ∈ segments (removeDotSegments path), ¬IsDot s) ∧
        removeDotSegments (removeDotSegments path) = removeDotSegments path ∧
        (removeDotSegments path).length ≤ path.length) ∧
      ∀ builds req proto r, buildRequest builds req proto = .ok r →
        ∃ path query, req.path = path ++ query ∧ 0x3F ∉ path ∧ (∀ b, query.head? = some b → b = 0x3F) ∧
          r.uri = uriOrigin req proto ++ removeDotSegments path ++ query := by
  refine ⟨fun path h => ?_, fun builds req proto r hbuild => ?_⟩
  · have hloop (segs : List (List UInt8)) (hcut : Cut segs) (hne : segs ≠ []) :
        removeDotSegments (join segs) = join (resolve [] segs) :=
      @dotLoop_resolve segs [] hcut hne fun _ ht => by cases ht
    have hcut := cut_segments path
    have hne : segments path ≠ [] := List.splitOn_ne_nil _ _
    have hout := hloop (segments path) hcut hne
    rw [join_segments h] at hout
    have hcut' : Cut (resolve [] (segments path)) :=
      forall_resolve (fun _ ht => by cases ht) (fun t ht _ => hcut t ht) List.not_mem_nil
    have hne' : resolve [] (segments path) ≠ [] := resolve_ne_nil hne
    have hdots : ∀ t ∈ resolve [] (segments path), ¬IsDot t :=
      forall_resolve (fun _ ht => by cases ht) (fun t _ ht => ht) (by decide)
    refine ⟨hout, ?_, ?_, ?_, ?_⟩
    · obtain ⟨s, segs, hsegs⟩ := List.exists_cons_of_ne_nil hne'
      rw [hout, hsegs]
      rfl
    · rw [hout, segments_join hcut' hne']
      exact hdots
    · rw [hout, hloop _ hcut' hne', resolve_of_not_isDot hdots, List.nil_append]
    · have hlength := length_resolve_le [] (segments path)
      rwa [join_segments h, join_nil, List.length_nil, Nat.zero_add, ← hout] at hlength
  · obtain ⟨hpath, hquery, hhead⟩ := splitQuery_spec req.path
    refine ⟨_, _, hpath.symm, hquery, hhead, ?_⟩
    rw [buildRequest] at hbuild
    split at hbuild
    · cases hbuild
      rfl
    · cases hbuild

/-- Two levels up, an empty segment, and a dot segment at the end. -/
example : join (resolve [] (segments (ascii "/a/b/../..//c/."))) = ascii "//c/" := by decide

end MqProxy.Server.Origin
