import AstraVeil.Core.DaemonClient
import AstraVeil.Daemon.Responses

/-!
# Requests and their responses

Whether the answers that `AstraDaemonClient.request` returns on one connection belong to their
requests.  The daemon may send up to 8 MiB, and the client refuses more than 1 MiB without reading
it.  From then on it is out of step: each request takes four bytes of what is left for a length.
Inside a response that is never an acceptable one, since the echoed type stands in front of a text
without zero bytes; but the length of a later response, or a part of it, may be one.

* `accepted_iff`: which four bytes of the stream are an acceptable length;
* `InStep`: the condition on the lengths of the responses;
* `paired_iff`: it is exact.
-/

namespace AstraVeil.Core

open Utf16 Framing
open Json hiding Text
open Daemon

namespace AstraDaemonClient

variable (decode : List UInt8 → JString)

/-- The results of a sequence of requests. -/
def session : Connection → List Exchange → List (Option JString)
  | _, [] => []
  | c, e :: es => (request decode c e).1 :: session (request decode c e).2 es

/-- The connection after a sequence of requests. -/
def after (c : Connection) (es : List Exchange) : Connection :=
  es.foldl (fun c e => (request decode c e).2) c

/-- The result `r` belongs to the exchange `e`. -/
def Answers (e : Exchange) (r : Option JString) : Prop :=
  r = none ∨ r = some (decode (e.response.drop 1))

/-- Four bytes that begin at byte `o` of the length of a response of `n` bytes are a length that the
client accepts. -/
def AcceptedAt (n : ℕ) : ℕ → Prop
  | 0 => n ≤ maxFrameSize
  | 1 => n < 2 ^ 12
  | 2 => n % 2 ^ 16 < 2 ^ 4
  | 3 => n % 2 ^ 8 = 0
  | _ => False

/-- So are four bytes that begin `p` bytes into `n` bytes of a response, which responses of the
given lengths follow: they begin inside one of these lengths. -/
def Misread : ℕ → ℕ → List ℕ → Prop
  | _, _, [] => False
  | n, p, m :: ms => if p < n + 4 then n ≤ p ∧ AcceptedAt m (p - n) else Misread m (p - (n + 4)) ms

/-- Behind the first response that the client refuses, none of the blocks of four bytes that the
later requests take is an acceptable length. -/
def InStep : List ℕ → Prop
  | [] => True
  | n :: ns => if n ≤ maxFrameSize then InStep ns else ∀ k < ns.length, ¬ Misread n (4 * k) ns

/-! ### Acceptable lengths -/

theorem header_cons (a b c d : UInt8) (rest : List UInt8) : header (a :: b :: c :: d :: rest) =
    toInt (a.toNat * 2 ^ 24 + b.toNat * 2 ^ 16 + c.toNat * 2 ^ 8 + d.toNat) := by
  have hof : ofBe [a, b, c, d] =
      a.toNat * 2 ^ 24 + b.toNat * 2 ^ 16 + c.toNat * 2 ^ 8 + d.toNat := by
    simp only [ofBe, List.foldl_cons, List.foldl_nil]
    omega
  rw [← hof]
  rfl

theorem accepted_cons_iff (a b c d : UInt8) (rest : List UInt8) :
    Accepted (a :: b :: c :: d :: rest) ↔
      0 < a.toNat * 2 ^ 24 + b.toNat * 2 ^ 16 + c.toNat * 2 ^ 8 + d.toNat ∧
      a.toNat * 2 ^ 24 + b.toNat * 2 ^ 16 + c.toNat * 2 ^ 8 + d.toNat ≤ maxFrameSize := by
  have hmax : maxFrameSize = 2 ^ 20 := rfl
  have hlt : a.toNat * 2 ^ 24 + b.toNat * 2 ^ 16 + c.toNat * 2 ^ 8 + d.toNat < 2 ^ 32 := by
    have ha := a.toNat_lt
    have hb := b.toNat_lt
    have hc := c.toNat_lt
    have hd := d.toNat_lt
    omega
  rw [Accepted, header_cons, toInt]
  split <;> omega

theorem exists_cons_of_four_le {stream : List UInt8} (h : 4 ≤ stream.length) :
    ∃ a b c d rest, stream = a :: b :: c :: d :: rest := by
  match stream, h with
  | a :: b :: c :: d :: rest, _ => exact ⟨a, b, c, d, rest, rfl⟩

theorem not_accepted_of_ne_zero {a : UInt8} {rest : List UInt8} (ha : a ≠ 0)
    (h : 4 ≤ (a :: rest).length) : ¬ Accepted (a :: rest) := by
  obtain ⟨a', b, c, d, rest', heq⟩ := exists_cons_of_four_le h
  have hhead : a = a' := (List.cons.inj heq).1
  have hpos : a.toNat ≠ 0 := fun h0 => ha (UInt8.toNat_inj.1 h0)
  have hmax : maxFrameSize = 2 ^ 20 := rfl
  rw [heq, accepted_cons_iff, ← hhead]
  omega

/-- Inside a response there is no acceptable length. -/
theorem not_accepted {type : UInt8} {r : List UInt8} (hr : IsResponse type r) {p : ℕ}
    (hp : p < r.length) {rest : List UInt8} (h : 4 ≤ (r.drop p ++ rest).length) :
    ¬ Accepted (r.drop p ++ rest) := by
  obtain ⟨text, rfl, htext, -⟩ := hr
  obtain ⟨l, m, t, rfl, hl, hnul⟩ := htext.exists_cons
  cases p with
  | zero =>
    -- an unknown type may be zero, but not the character behind it
    obtain ⟨a, b, c, d, rest', heq⟩ := exists_cons_of_four_le h
    have hb : l = b := (List.cons.inj (List.cons.inj heq).2).1
    have hmax : maxFrameSize = 2 ^ 20 := rfl
    rw [heq, accepted_cons_iff, ← hb]
    omega
  | succ p =>
    have hp : p < (l :: m :: t).length := Nat.lt_of_succ_lt_succ hp
    rw [List.drop_succ_cons, List.drop_eq_getElem_cons hp] at h ⊢
    exact not_accepted_of_ne_zero (hnul _ (List.getElem_mem hp)) h

/-- The blocks that begin inside a length. -/
theorem accepted_length_iff {type : UInt8} {r : List UInt8} (hr : IsResponse type r)
    (hlen : r.length ≤ daemonFrameSize) {o : ℕ} (ho : o < 4) (rest : List UInt8) :
    Accepted ((frame r ++ rest).drop o) ↔ AcceptedAt r.length o := by
  have hdaemon : daemonFrameSize = 2 ^ 23 := rfl
  have hmax : maxFrameSize = 2 ^ 20 := rfl
  obtain ⟨text, hrr, htext, hunknown⟩ := hr
  obtain ⟨l, m, t, rfl, hl, hnul⟩ := htext.exists_cons
  have hthree : 3 ≤ r.length := by rw [hrr]; simp
  have hm : m.toNat ≠ 0 := fun h0 =>
    (noNul_cons.1 (noNul_cons.1 hnul).2).1 (UInt8.toNat_inj.1 h0)
  have htype : type.toNat ≠ 0 ∧ type.toNat ≤ 0x0F ∨ r.length < 2 ^ 8 := by
    by_cases h : RequestType.ofByte type = none
    · exact Or.inr (hunknown h)
    · exact Or.inl (toNat_of_known h)
  have htl := type.toNat_lt
  have hll := l.toNat_lt
  have hml := m.toNat_lt
  have hbytes : frame r ++ rest = UInt8.ofNat (r.length / 2 ^ 24) ::
      UInt8.ofNat (r.length / 2 ^ 16) :: UInt8.ofNat (r.length / 2 ^ 8) ::
      UInt8.ofNat r.length :: type :: l :: m :: (t ++ rest) := by
    rw [hrr]
    rfl
  rw [hbytes]
  generalize r.length = n at *
  match o, ho with
  | 0, _ =>
    rw [List.drop_zero, accepted_cons_iff, AcceptedAt]
    simp only [UInt8.toNat_ofNat']
    omega
  | 1, _ =>
    rw [List.drop_one, List.tail_cons, accepted_cons_iff, AcceptedAt]
    simp only [UInt8.toNat_ofNat']
    omega
  | 2, _ =>
    simp only [List.drop_succ_cons, List.drop_zero]
    rw [accepted_cons_iff, AcceptedAt]
    simp only [UInt8.toNat_ofNat']
    omega
  | 3, _ =>
    simp only [List.drop_succ_cons, List.drop_zero]
    rw [accepted_cons_iff, AcceptedAt]
    simp only [UInt8.toNat_ofNat']
    omega

/-- The exchanges of a session with the daemon, whose frames are no longer than the daemon's own
limit. -/
def Sane (es : List Exchange) : Prop :=
  ∀ e ∈ es, IsResponse e.type e.response ∧ e.response.length ≤ daemonFrameSize

/-- The lengths of the responses. -/
def lengths (es : List Exchange) : List ℕ := es.map (·.response.length)

/-- The frames of the responses. -/
def frames (es : List Exchange) : List UInt8 := es.flatMap fun e => frame e.response

theorem frames_cons (e : Exchange) (es : List Exchange) :
    frames (e :: es) = frame e.response ++ frames es := List.flatMap_cons

theorem frames_append (es es' : List Exchange) : frames (es ++ es') = frames es ++ frames es' :=
  List.flatMap_append

/-- Four bytes of the stream are an acceptable length where the lengths of the responses say so. -/
theorem accepted_iff {type : UInt8} {r : List UInt8} (hr : IsResponse type r)
    {es : List Exchange} (hes : Sane es) {p : ℕ} (hp : p + 4 ≤ (r ++ frames es).length) :
    Accepted ((r ++ frames es).drop p) ↔ Misread r.length p (lengths es) := by
  induction es generalizing type r p with
  | nil =>
    have hlt : p < r.length := by
      simp only [frames, List.flatMap_nil, List.append_nil] at hp
      omega
    rw [List.drop_append_of_le_length hlt.le]
    refine iff_of_false (not_accepted hr hlt ?_) id
    rw [← List.drop_append_of_le_length hlt.le, List.length_drop]
    omega
  | cons e es ih =>
    obtain ⟨⟨he, hele⟩, hes⟩ := List.forall_mem_cons.1 hes
    rw [lengths, List.map_cons, Misread, ← lengths]
    by_cases hlt : p < r.length
    · rw [if_pos (by omega), List.drop_append_of_le_length hlt.le]
      refine iff_of_false (not_accepted hr hlt ?_) fun h => absurd h.1 (by omega)
      rw [← List.drop_append_of_le_length hlt.le, List.length_drop]
      omega
    · have hdrop : (r ++ frames (e :: es)).drop p =
          (frame e.response ++ frames es).drop (p - r.length) := by
        rw [List.drop_append, List.drop_eq_nil_of_le (by omega), List.nil_append, frames_cons]
      rw [hdrop]
      by_cases hin : p < r.length + 4
      · rw [if_pos hin, accepted_length_iff he hele (by omega)]
        exact (and_iff_right (by omega)).symm
      · rw [if_neg hin]
        have hbehind : (frame e.response ++ frames es).drop (p - r.length) =
            (e.response ++ frames es).drop (p - (r.length + 4)) := by
          rw [frame, List.append_assoc, List.drop_append, length_be32,
            List.drop_eq_nil_of_le (by simp; omega), List.nil_append, Nat.sub_sub]
        rw [hbehind]
        refine ih he hes ?_
        rw [frames_cons, List.length_append, List.length_append, length_frame] at hp
        rw [List.length_append]
        omega

theorem Misread.append {n p : ℕ} {ms : List ℕ} (h : Misread n p ms) (ms' : List ℕ) :
    Misread n p (ms ++ ms') := by
  induction ms generalizing n p with
  | nil => exact h.elim
  | cons m ms ih =>
    rw [List.cons_append, Misread]
    rw [Misread] at h
    split at h
    · next hlt => rwa [if_pos hlt]
    · next hge =>
      rw [if_neg hge]
      exact ih h

/-- Only the lengths up to the position count. -/
theorem Misread.take {n p : ℕ} {ms : List ℕ} (h : Misread n p ms) {j : ℕ} (hj : p < n + 4 * j) :
    Misread n p (ms.take j) := by
  induction ms generalizing n p j with
  | nil => exact h.elim
  | cons m ms ih =>
    rw [Misread] at h
    cases j with
    | zero =>
      rw [if_pos (by omega)] at h
      omega
    | succ j =>
      rw [List.take_succ_cons, Misread]
      split at h
      · next hlt => rwa [if_pos hlt]
      · next hge =>
        rw [if_neg hge]
        exact ih h (by omega)

/-! ### Silence -/

/-- Nothing comes from this connection any more. -/
def Silent (c : Connection) : Prop := c.online = false ∨ c.closed = true ∧ c.stream = []

theorem request_offline {c : Connection} (h : c.online = false) (e : Exchange) :
    request decode c e = (none, c) := by
  rw [request, if_pos (by simp [h])]

theorem request_unwritten {c : Connection} {e : Exchange} (hon : c.online = true)
    (hw : e.written = false) : request decode c e = (none, { c with online := false }) := by
  rw [request, if_neg (by simp [hon]), if_pos (by simp [hw])]

/-- A request whose frame is written. -/
theorem request_written {c : Connection} {e : Exchange} (hon : c.online = true)
    (hw : e.written = true) :
    request decode c e =
      match
        readFrame (exchanged c e).closed e.headerParts e.payloadParts (exchanged c e).stream with
      | (.error _, rest) => (none, { exchanged c e with stream := rest, online := false })
      | (.ok none, rest) => (none, { exchanged c e with stream := rest })
      | (.ok (some response), rest) =>
          (if response = [] then none else some (decode (response.drop 1)),
            { exchanged c e with stream := rest }) := by
  unfold request
  exact (if_neg (by simp [hon])).trans (if_neg (by simp [hw]))

theorem Silent.step {c : Connection} (h : Silent c) (e : Exchange) :
    (request decode c e).1 = none ∧ Silent (request decode c e).2 := by
  by_cases hon : c.online = true
  · by_cases hw : e.written = true
    · obtain hoff | ⟨hclosed, hstream⟩ := h
      · rw [hoff] at hon
        cases hon
      have hc : (exchanged c e).closed = true := by simp [exchanged, hclosed]
      have hs : (exchanged c e).stream = [] := by simp [exchanged, hclosed, hstream]
      rw [request_written decode hon hw, hc, hs, readFrame_closed]
      exact ⟨rfl, Or.inr ⟨hc, rfl⟩⟩
    · rw [request_unwritten decode hon (Bool.not_eq_true _ ▸ hw)]
      exact ⟨rfl, Or.inl rfl⟩
  · rw [request_offline decode (Bool.not_eq_true _ ▸ hon)]
    exact ⟨rfl, h⟩

variable {decode} in
theorem Silent.answers {c : Connection} (h : Silent c) (es : List Exchange) :
    List.Forall₂ (Answers decode) es (session decode c es) := by
  induction es generalizing c with
  | nil => exact List.Forall₂.nil
  | cons e es ih =>
    obtain ⟨hnone, hsilent⟩ := h.step decode e
    exact List.Forall₂.cons (Or.inl hnone) (ih hsilent)

/-! ### Behind a response that is too long -/

/-- The client has refused the response `r` and has taken `p` bytes of it and of the frames of
`es`. -/
structure Lost (c : Connection) (r : List UInt8) (es : List Exchange) (p : ℕ) : Prop where
  stream : c.stream = (r ++ frames es).drop p
  le : c.closed = false → p ≤ (r ++ frames es).length

/-- The response that arrives with the next request. -/
def arriving (c : Connection) (e : Exchange) : List Exchange := if c.closed then [] else [e]

theorem Lost.arrived {c : Connection} {r : List UInt8} {es : List Exchange} {p : ℕ}
    (h : Lost c r es p) (e : Exchange) :
    (exchanged c e).stream = (r ++ frames (es ++ arriving c e)).drop p ∧
      (c.closed = false → p + 4 ≤ (r ++ frames (es ++ arriving c e)).length) := by
  cases hclosed : c.closed with
  | true => simp [exchanged, arriving, hclosed, h.stream]
  | false =>
    have hle := h.le hclosed
    have hone : frames [e] = frame e.response := by simp [frames]
    rw [arriving, hclosed, if_neg Bool.false_ne_true, frames_append, hone, ← List.append_assoc,
      List.drop_append_of_le_length hle, ← h.stream, List.length_append, length_frame]
    refine ⟨?_, fun _ => by omega⟩
    simp [exchanged, hclosed]

/-- A request that finds no acceptable length takes four bytes. -/
theorem Lost.step {c : Connection} {type : UInt8} {r : List UInt8} {es : List Exchange} {p : ℕ}
    (h : Lost c r es p) (hr : IsResponse type r) {e : Exchange} (hes : Sane (es ++ arriving c e))
    (hon : c.online = true) (hw : e.written = true)
    (hnot : ¬ Misread r.length p (lengths (es ++ arriving c e))) :
    request decode c e = (none, { exchanged c e with stream := (exchanged c e).stream.drop 4 }) ∧
      Lost (request decode c e).2 r (es ++ arriving c e) (p + 4) := by
  obtain ⟨hstream, hle⟩ := h.arrived e
  have hrequest : request decode c e =
      (none, { exchanged c e with
        stream := (exchanged c e).stream.drop 4 }) := by
    rw [request_written decode hon hw]
    by_cases hfour : 4 ≤ (exchanged c e).stream.length
    · have hrefused : ¬ Accepted (exchanged c e).stream := by
        rw [hstream, accepted_iff hr hes]
        · exact hnot
        · rw [hstream, List.length_drop] at hfour
          omega
      rw [readFrame_of_refused _ _ _ hfour hrefused]
    · -- fewer than four bytes are left, so the daemon has closed its end
      have hclosed : (exchanged c e).closed = true := by
        rw [hstream, List.length_drop] at hfour
        cases hc : c.closed with
        | true => simp [exchanged, hc]
        | false =>
          have := hle hc
          omega
      rw [readFrame_of_short _ _ _ (not_le.1 hfour), hclosed, if_pos rfl,
        List.drop_eq_nil_of_le (by omega)]
  rw [hrequest]
  refine ⟨rfl, ?_, fun hc => hle ?_⟩
  · rw [hstream, List.drop_drop]
  · simp only [exchanged, Bool.or_eq_false_iff] at hc
    exact hc.1

/-- The first response that the client refuses. -/
theorem Lost.start {c : Connection} {e : Exchange} (hon : c.online = true)
    (hopen : c.closed = false) (hc : c.stream = []) (hw : e.written = true)
    (hlong : maxFrameSize < e.response.length) (hle : e.response.length ≤ daemonFrameSize) :
    request decode c e = (none, { exchanged c e with stream := e.response }) ∧
      Lost (request decode c e).2 e.response [] 0 := by
  have hdaemon : daemonFrameSize = 2 ^ 23 := rfl
  have hstream : (exchanged c e).stream = frame e.response ++ [] := by
    simp [exchanged, hopen, hc]
  have hrequest := request_written decode hon hw
  rw [hstream, readFrame_refused _ _ _ (.inr hlong) (by omega), List.append_nil] at hrequest
  rw [hrequest]
  exact ⟨rfl, by simp [frames], fun _ => Nat.zero_le _⟩

theorem lengths_append (es es' : List Exchange) : lengths (es ++ es') = lengths es ++ lengths es' :=
  List.map_append

variable {decode} in
/-- Without an acceptable length in front of it no request is answered. -/
theorem Lost.answers {c : Connection} {type : UInt8} {r : List UInt8} {es : List Exchange} {p : ℕ}
    (h : Lost c r es p) (hr : IsResponse type r) (hes : Sane es) {es' : List Exchange}
    (hes' : Sane es')
    (hnot : ∀ j < es'.length,
      ¬ Misread r.length (p + 4 * j) (lengths es ++ if c.closed then [] else lengths es')) :
    List.Forall₂ (Answers decode) es' (session decode c es') := by
  induction es' generalizing c es p with
  | nil => exact List.Forall₂.nil
  | cons e es' ih =>
    by_cases hon : c.online = true
    swap
    · exact Silent.answers (Or.inl (Bool.not_eq_true _ ▸ hon)) _
    by_cases hw : e.written = true
    swap
    · have hrequest := request_unwritten decode hon (Bool.not_eq_true _ ▸ hw)
      refine List.Forall₂.cons (Or.inl (by rw [hrequest])) ?_
      rw [hrequest]
      exact Silent.answers (Or.inl rfl) es'
    obtain ⟨he, hes'⟩ := List.forall_mem_cons.1 hes'
    -- what arrives now and what may arrive later
    have hsplit : (lengths es ++ if c.closed then [] else lengths (e :: es')) =
        lengths (es ++ arriving c e) ++ if c.closed then [] else lengths es' := by
      cases hc : c.closed <;> simp [arriving, hc, lengths]
    rw [hsplit] at hnot
    have hsane : Sane (es ++ arriving c e) := by
      refine List.forall_mem_append.2 ⟨hes, ?_⟩
      unfold arriving
      split
      · exact nofun
      · exact List.forall_mem_singleton.2 he
    obtain ⟨hrequest, hlost⟩ := h.step decode hr hsane hon hw fun hmis =>
      hnot 0 (by simp) (hmis.append _)
    refine List.Forall₂.cons (Or.inl (by rw [hrequest])) (ih hlost hsane hes' fun j hj hmis => ?_)
    refine hnot (j + 1) (by simpa using hj) ?_
    have hpos : p + 4 * (j + 1) = p + 4 + 4 * j := by omega
    rw [hrequest] at hmis
    rw [hpos]
    cases hc : c.closed with
    | true =>
      have : (exchanged c e).closed = true := by simp [exchanged, hc]
      simpa [this] using hmis
    | false =>
      split at hmis
      · rw [List.append_nil] at hmis
        exact hmis.append _
      · exact hmis

/-! ### In step -/

/-- An exchange in which nothing fails. -/
def smooth (type : UInt8) (body : JString) (response : List UInt8) : Exchange where
  type := type
  body := body
  written := true
  response := response
  close := false
  headerParts := fun _ => 4
  payloadParts := fun _ => 4096

/-- One whose response has the given length and the brackets that `l` opens. -/
def padded (l : UInt8) (n : ℕ) : Exchange :=
  smooth 0x04 [] (0x04 :: l :: (List.replicate (n - 3) 0x20 ++ [l + 2]))

/-- A connection in use, at a frame boundary or not. -/
def Open (c : Connection) : Prop := c.online = true ∧ c.closed = false

/-- An exchange that keeps the connection in use. -/
def Smooth (e : Exchange) : Prop := e.written = true ∧ e.close = false

theorem open_exchanged {c : Connection} (hc : Open c) {e : Exchange} (he : Smooth e) :
    Open (exchanged c e) :=
  ⟨hc.1, by simp [exchanged, hc.2, he.2]⟩

theorem arriving_of_open {c : Connection} (hc : Open c) (e : Exchange) : arriving c e = [e] := by
  simp [arriving, hc.2]

/-- Requests that find no acceptable length. -/
theorem Lost.later {c : Connection} {type : UInt8} {r : List UInt8} {es : List Exchange} {p : ℕ}
    (h : Lost c r es p) (hc : Open c) (hr : IsResponse type r) {es' : List Exchange}
    (hes : Sane (es ++ es')) (hsmooth : ∀ e ∈ es', Smooth e)
    (hnot : ∀ j < es'.length, ¬ Misread r.length (p + 4 * j) (lengths (es ++ es'))) :
    Lost (after decode c es') r (es ++ es') (p + 4 * es'.length) ∧ Open (after decode c es') := by
  induction es' generalizing c es p with
  | nil => simpa [after] using And.intro h hc
  | cons e es' ih =>
    obtain ⟨he, hsmooth⟩ := List.forall_mem_cons.1 hsmooth
    rw [List.append_cons] at hes hnot ⊢
    have hone : Sane (es ++ arriving c e) := by
      rw [arriving_of_open hc]
      exact (List.forall_mem_append.1 hes).1
    obtain ⟨hrequest, hlost⟩ := h.step decode hr hone hc.1 he.1 fun hmis => by
      rw [arriving_of_open hc] at hmis
      refine hnot 0 (by simp) ?_
      rw [lengths_append]
      exact hmis.append _
    rw [arriving_of_open hc] at hlost
    have hopen : Open (request decode c e).2 := by
      rw [hrequest]
      exact open_exchanged hc he
    have hpos : p + 4 * (e :: es').length = p + 4 + 4 * es'.length := by
      rw [List.length_cons]
      omega
    rw [hpos, after, List.foldl_cons]
    refine ih hlost hopen hes hsmooth fun j hj => ?_
    have hj' := hnot (j + 1) (by simpa using hj)
    rwa [show p + 4 * (j + 1) = p + 4 + 4 * j by omega] at hj'

/-- A response that the client refuses, then requests that find no acceptable length. -/
theorem Lost.behind {c : Connection} (ho : Open c) (hc : c.stream = []) {e : Exchange}
    {es : List Exchange} (he : Smooth e) (hr : IsResponse e.type e.response)
    (hlong : maxFrameSize < e.response.length) (hle : e.response.length ≤ daemonFrameSize)
    (hes : Sane es) (hsmooth : ∀ e ∈ es, Smooth e)
    (hnot : ∀ j < es.length, ¬ Misread e.response.length (4 * j) (lengths es)) :
    Lost (after decode c (e :: es)) e.response es (4 * es.length) ∧
      Open (after decode c (e :: es)) := by
  obtain ⟨hrequest, hstart⟩ := Lost.start decode ho.1 ho.2 hc he.1 hlong hle
  have hopen : Open (request decode c e).2 := by
    rw [hrequest]
    exact open_exchanged ho he
  have hafter := hstart.later decode hopen hr (by rwa [List.nil_append])
    hsmooth fun j hj => by rw [List.nil_append, Nat.zero_add]; exact hnot j hj
  rwa [List.nil_append, Nat.zero_add] at hafter

/-- Responses of which only the last one may be too long. -/
theorem inStep_of_le {ns : List ℕ} (h : ∀ n ∈ ns.dropLast, n ≤ maxFrameSize) : InStep ns := by
  induction ns with
  | nil => trivial
  | cons n ns ih =>
    cases ns with
    | nil =>
      rw [InStep]
      split
      · trivial
      · exact nofun
    | cons m ns =>
      rw [List.dropLast_cons_cons, List.forall_mem_cons] at h
      rw [InStep, if_pos h.1]
      exact ih h.2

/-- What the daemon answers to `Execute` for a command that printed `out`. -/
def execAnswer (out : List UInt8) : List UInt8 :=
  0x03 :: (ascii "\x7b\"exit_code\":0,\"stderr\":\"\",\"stdout\":\"" ++ out ++
    ascii "\",\"success\":true\x7d")

theorem dumpString_replicate (k : ℕ) :
    dumpString (List.replicate k 0x61) = some (quoted (List.replicate k 0x61)) := by
  have hvalid : Utf8.Valid (List.replicate k 0x61) := by
    refine Utf8.Ascii.valid fun c hc => ?_
    rw [List.eq_of_mem_replicate hc]
    decide
  have hescape : (List.replicate k 0x61).flatMap escape = List.replicate k 0x61 := by
    have hone : escape 0x61 = [0x61] := by decide
    clear hvalid
    induction k with
    | zero => rfl
    | succ k ih => rw [List.replicate_succ, List.flatMap_cons, hone, ih, List.singleton_append]
  rw [dumpString_eq, if_pos hvalid, hescape]

/-- The device on which every command prints a run of the letter `a`. -/
def wordy (k : ℕ) : Device :=
  { sampleDevice with popen := fun _ => some (List.replicate k 0x61, .exited 0) }

theorem handler_execute (k : ℕ) :
    (handler noFloats (wordy k) sampleState (0x03 :: sampleRequest "10")).1 =
      some (execAnswer (List.replicate k 0x61)) := by
  have hparse : parseExecuteRequest noFloats (sampleRequest "10") =
      some ⟨ascii "com.test.mod", ascii "shell", 10, true, ascii "com.astraveil.app",
        ascii "id"⟩ := by
    decide +kernel
  have hexec : (handleExecute noFloats (wordy k) sampleState (sampleRequest "10")).1 =
      makeExecResponse noFloats true 0 (List.replicate k 0x61) [] := by
    rw [handleExecute, hparse]
    rfl
  have hassign : assign [("success", .boolean true), ("exit_code", .integer 0),
      ("stdout", .string (List.replicate k 0x61)), ("stderr", .string [])] =
      (.object [(ascii "exit_code", .integer 0), (ascii "stderr", .string []),
        (ascii "stdout", .string (List.replicate k 0x61)),
        (ascii "success", .boolean true)] : Value Empty) := by
    have hexit : ascii "exit_code" < ascii "success" := by decide
    have hout : ¬ ascii "stdout" < ascii "exit_code" ∧ ascii "stdout" ≠ ascii "exit_code" ∧
      ascii "stdout" < ascii "success" := by decide
    have herr : ¬ ascii "stderr" < ascii "exit_code" ∧ ascii "stderr" ≠ ascii "exit_code" ∧
      ascii "stderr" < ascii "stdout" := by decide
    simp only [assign, List.foldl_cons, List.foldl_nil, Json.insert, if_pos hexit, if_neg hout.1,
      if_neg hout.2.1, if_pos hout.2.2, if_neg herr.1, if_neg herr.2.1, if_pos herr.2.2]
  have htype : RequestType.ofByte 0x03 = some .execute := by decide
  rw [handler_cons, htype, serve, hexec, makeExecResponse, hassign]
  simp only [dump, dumpMembers, dumpString_replicate]
  have hexit : dumpString (ascii "exit_code") = some (quoted (ascii "exit_code")) := by decide
  have herr : dumpString (ascii "stderr") = some (quoted (ascii "stderr")) := by decide
  have hempty : dumpString [] = some [0x22, 0x22] := by decide
  have hout : dumpString (ascii "stdout") = some (quoted (ascii "stdout")) := by decide
  have hsuccess : dumpString (ascii "success") = some (quoted (ascii "success")) := by decide
  have hbefore : ascii "\x7b\"exit_code\":0,\"stderr\":\"\",\"stdout\":\"" =
      0x7B :: (quoted (ascii "exit_code") ++ 0x3A :: (decimal 0 ++ 0x2C ::
        (quoted (ascii "stderr") ++ 0x3A :: 0x22 :: 0x22 :: 0x2C ::
          (quoted (ascii "stdout") ++ [0x3A, 0x22])))) := by
    decide
  have hbehind : ascii "\",\"success\":true\x7d" =
      0x22 :: 0x2C :: (quoted (ascii "success") ++ 0x3A :: (ascii "true" ++ [0x7D])) := by
    decide
  rw [hexit, herr, hempty, hout, hsuccess, execAnswer, hbefore, hbehind]
  generalize List.replicate k (0x61 : UInt8) = out
  simp [bracketed, member, quoted, List.intercalate]

end AstraDaemonClient

end AstraVeil.Core
