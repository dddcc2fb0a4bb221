import AstraVeil.Lib.Digits
import AstraVeil.Lib.Separated
import AstraVeil.Lib.Utf16

/-!
# The hash-chained audit log

`core/security/audit/AuditChain.kt`: every link carries the hash of the link before it, and its
own hash covers `sequence|timestamp|eventType|moduleId|capability|detail|prevHash`.  Strings are
UTF-16 (`JString`), as the JVM has them; the digest is a parameter.

* `Linked`, `verify_eq_iff`: what `verify` checks, as a recursion along the chain;
* `linked_append`: `append` keeps the chain intact;
* `TamperEvident`: no other intact chain of the same length has the same head;
* `linked_unique`, `linked_replace`: the two directions;
* `tamperEvident_iff`: exactly the chains whose texts contain neither the separator nor anything
  the UTF-8 encoder writes as a question mark are tamper evident.
-/

namespace AstraVeil.Core

open Utf16

/-- `AuditLink`. -/
structure AuditLink where
  sequence : Int64
  timestampMs : Int64
  eventType : JString
  moduleId : JString
  capability : JString
  detail : JString
  prevHash : JString
  hash : JString
  deriving DecidableEq

namespace AuditChain

/-- A `Long` in a string template. -/
def longString (x : Int64) : JString := ofString (String.ofList (Digits.intDigits x.toInt))

/-- `GENESIS_HASH`. -/
def genesisHash : JString := List.replicate 64 0x30

/-- The separator, as a code unit. -/
def bar : UInt16 := 0x7C

/-- The fields under the hash. -/
def fields (l : AuditLink) : List JString :=
  [longString l.sequence, longString l.timestampMs, l.eventType, l.moduleId, l.capability,
    l.detail, l.prevHash]

/-- `buildHashPayload`. -/
def buildHashPayload (l : AuditLink) : JString := [bar].intercalate (fields l)

variable (sha256 : List UInt8 → List UInt8)

/-- `sha256Hex`. -/
def sha256Hex (input : JString) : JString :=
  ofString (String.ofList (Digits.hex (sha256 (utf8 input))))

/-- `headHash`. -/
def headHash (chain : List AuditLink) : JString :=
  match chain.getLast? with
  | some l => l.hash
  | none => genesisHash

/-- `append`, at the clock reading `now`. -/
def append (chain : List AuditLink) (now : Int64) (eventType moduleId capability detail : JString) :
    List AuditLink :=
  let link : AuditLink :=
    { sequence := Int64.ofNat chain.length, timestampMs := now, eventType := eventType
      moduleId := moduleId, capability := capability, detail := detail
      prevHash := headHash chain, hash := [] }
  chain ++ [{ link with hash := sha256Hex sha256 (buildHashPayload link) }]

/-- The loop of `verify` from index `i` on, with the hash of the link before it. -/
def verifyFrom : ℤ → JString → List AuditLink → ℤ
  | _, _, [] => -1
  | i, expectedPrevHash, link :: rest =>
      if link.prevHash ≠ expectedPrevHash then i
      else if sha256Hex sha256 (buildHashPayload link) ≠ link.hash then i
      else verifyFrom (i + 1) link.hash rest

/-- `verify`. -/
def verify (chain : List AuditLink) : ℤ := verifyFrom sha256 0 genesisHash chain

/-- No other intact chain of the same length has the same head hash. -/
def TamperEvident (chain : List AuditLink) : Prop :=
  ∀ other : List AuditLink, other.length = chain.length → headHash other = headHash chain →
    verify sha256 other = -1 → other = chain

/-- The free texts of a link. -/
def texts (l : AuditLink) : List JString := [l.eventType, l.moduleId, l.capability, l.detail]

/-! ### Intact chains -/

/-- The chain is intact when it starts from the hash `prev`. -/
def Linked : JString → List AuditLink → Prop
  | _, [] => True
  | prev, l :: ls =>
      l.prevHash = prev ∧ sha256Hex sha256 (buildHashPayload l) = l.hash ∧ Linked l.hash ls

/-- The hash of the last link, or the one the chain started from. -/
def lastHash : JString → List AuditLink → JString
  | prev, [] => prev
  | _, l :: ls => lastHash l.hash ls

theorem headHash_eq_lastHash (chain : List AuditLink) :
    headHash chain = lastHash genesisHash chain := by
  have key : ∀ (p : JString) (ls : List AuditLink) (l : AuditLink),
      lastHash p (ls ++ [l]) = l.hash := by
    intro p ls l
    induction ls generalizing p with
    | nil => rfl
    | cons a ls ih => exact ih a.hash
  rcases List.eq_nil_or_concat chain with rfl | ⟨ls, l, rfl⟩
  · rfl
  · rw [List.concat_eq_append, key, headHash, List.getLast?_concat]

variable {sha256}

theorem verifyFrom_eq_iff {i : ℤ} (hi : 0 ≤ i) (prev : JString) (chain : List AuditLink) :
    verifyFrom sha256 i prev chain = -1 ↔ Linked sha256 prev chain := by
  induction chain generalizing i prev with
  | nil => exact iff_of_true rfl trivial
  | cons l ls ih =>
    unfold verifyFrom Linked
    split_ifs with h1 h2
    · exact iff_of_false (by omega) fun h => h1 h.1
    · exact iff_of_false (by omega) fun h => h2 h.2.1
    · rw [ih (by omega)]
      exact ⟨fun h => ⟨not_not.1 h1, not_not.1 h2, h⟩, fun h => h.2.2⟩

theorem verify_eq_iff {chain : List AuditLink} :
    verify sha256 chain = -1 ↔ Linked sha256 genesisHash chain :=
  verifyFrom_eq_iff (by omega) _ _

theorem linked_concat {prev : JString} {ls : List AuditLink} {l : AuditLink} :
    Linked sha256 prev (ls ++ [l]) ↔ Linked sha256 prev ls ∧ l.prevHash = lastHash prev ls ∧
      sha256Hex sha256 (buildHashPayload l) = l.hash := by
  induction ls generalizing prev with
  | nil => simp [Linked, lastHash]
  | cons a ls ih =>
    rw [List.cons_append, Linked, ih, Linked, lastHash]
    simp only [and_assoc]

/-- `append` keeps the chain intact. -/
theorem linked_append {chain : List AuditLink} (h : verify sha256 chain = -1) (now : Int64)
    (eventType moduleId capability detail : JString) :
    verify sha256 (append sha256 chain now eventType moduleId capability detail) = -1 := by
  rw [verify_eq_iff] at h ⊢
  exact linked_concat.2 ⟨h, headHash_eq_lastHash chain, rfl⟩

/-! ### What the hash covers -/

theorem sha256Hex_eq_iff (hsha : Function.Injective sha256) {s t : JString} :
    sha256Hex sha256 s = sha256Hex sha256 t ↔ scalars s = scalars t := by
  rw [← utf8_eq_iff]
  constructor
  · intro h
    exact hsha (Digits.hex_injective (String.ofList_injective (ofString_injective h)))
  · intro h
    rw [sha256Hex, sha256Hex, h]

theorem length_fields (l : AuditLink) : (fields l).length = 7 := rfl

theorem fields_inj {a b : AuditLink} (h : fields a = fields b) (hh : a.hash = b.hash) : a = b := by
  have hlong : Function.Injective longString := fun x y hxy =>
    Int64.toInt_inj.1 (Digits.intDigits_injective
      (String.ofList_injective (ofString_injective hxy)))
  obtain ⟨s, t, e, m, c, d, p, x⟩ := a
  obtain ⟨s', t', e', m', c', d', p', x'⟩ := b
  simp only [fields, List.cons.injEq, and_true] at h
  obtain ⟨h1, h2, h3, h4, h5, h6, h7⟩ := h
  simp only [AuditLink.mk.injEq]
  exact ⟨hlong h1, hlong h2, h3, h4, h5, h6, h7, hh⟩

/-- A literal without the separator and the question mark. -/
theorem ofString_plain {s : String} (hb : '|' ∉ s.toList) (hq : '?' ∉ s.toList) :
    bar ∉ ofString s ∧ '?' ∉ scalars (ofString s) := by
  rw [scalars_ofString]
  refine ⟨fun h => hb ?_, hq⟩
  rw [← scalars_ofString s]
  exact unit_mem_scalars (c := bar) rfl h

theorem longString_plain (x : Int64) : bar ∉ longString x ∧ '?' ∉ scalars (longString x) := by
  apply ofString_plain <;> rw [String.toList_ofList]
  · exact Digits.not_mem_intDigits rfl (by decide) _
  · exact Digits.not_mem_intDigits rfl (by decide) _

theorem sha256Hex_plain (s : JString) :
    bar ∉ sha256Hex sha256 s ∧ '?' ∉ scalars (sha256Hex sha256 s) := by
  apply ofString_plain <;> rw [String.toList_ofList]
  · exact Digits.not_mem_hex (by decide) _
  · exact Digits.not_mem_hex (by decide) _

theorem genesisHash_plain : bar ∉ genesisHash ∧ '?' ∉ scalars genesisHash := by
  rw [question_mem_scalars]
  decide

/-- A text that the hash covers without loss. -/
def Plain (s : JString) : Prop := bar ∉ s ∧ '?' ∉ scalars s

/-- A link of plain texts is determined by its hash. -/
theorem eq_of_hash_eq (hsha : Function.Injective sha256) {a b : AuditLink}
    (ha : ∀ f ∈ fields a, Plain f)
    (hha : sha256Hex sha256 (buildHashPayload a) = a.hash)
    (hhb : sha256Hex sha256 (buildHashPayload b) = b.hash) (h : a.hash = b.hash) : a = b := by
  have hread : scalars (buildHashPayload a) = scalars (buildHashPayload b) :=
    (sha256Hex_eq_iff hsha).1 (hha.trans (h.trans hhb.symm))
  have hclean : '?' ∉ scalars (buildHashPayload a) := by
    have hbar : (isHigh bar || isLow bar) = false := by decide
    have hunit : '?' ≠ unit bar := by decide
    rw [buildHashPayload, scalars_intercalate hbar]
    intro hmem
    obtain ⟨x, hx, hq⟩ := (Separated.mem_intercalate hmem).resolve_right hunit
    obtain ⟨f, hf, rfl⟩ := List.mem_map.1 hx
    exact (ha f hf).2 hq
  have hpay : [bar].intercalate (fields a) = [bar].intercalate (fields b) :=
    scalars_inj hclean hread
  have hfields : fields a = fields b :=
    Separated.intercalate_inj ((length_fields a).trans (length_fields b).symm)
      (fun f hf => (ha f hf).1) hpay
  exact fields_inj hfields h

/-- Two intact chains with the same last hash are equal where the first has plain texts.  The
induction carries that they also start from the same hash. -/
theorem linked_unique (hsha : Function.Injective sha256) {p q : JString}
    {as bs : List AuditLink} (hp : Plain p) (ha : Linked sha256 p as) (hb : Linked sha256 q bs)
    (htexts : ∀ l ∈ as, ∀ f ∈ texts l, Plain f) (hlen : as.length = bs.length)
    (hlast : lastHash p as = lastHash q bs) : as = bs ∧ p = q := by
  induction as generalizing p q bs with
  | nil =>
    obtain rfl := List.length_eq_zero_iff.1 hlen.symm
    exact ⟨rfl, hlast⟩
  | cons a as ih =>
    obtain ⟨b, bs, rfl⟩ := List.exists_cons_of_length_eq_add_one hlen.symm
    obtain ⟨hap, hah, has⟩ := ha
    obtain ⟨hbq, hbh, hbs⟩ := hb
    have hhash : Plain a.hash := hah ▸ sha256Hex_plain _
    obtain ⟨htail, hab⟩ := ih hhash has hbs (fun l hl => htexts l (List.mem_cons_of_mem _ hl))
      (Nat.succ.inj hlen) hlast
    have hplain : ∀ f ∈ fields a, Plain f := by
      have ht := htexts a List.mem_cons_self
      simp only [texts, List.forall_mem_cons] at ht
      simp only [fields, List.forall_mem_cons]
      exact ⟨longString_plain _, longString_plain _, ht.1, ht.2.1, ht.2.2.1, ht.2.2.2.1,
        hap ▸ hp, by simp⟩
    have heq : a = b := eq_of_hash_eq hsha hplain hah hbh hab
    exact ⟨by rw [heq, htail], by rw [← hap, ← hbq, heq]⟩

/-! ### Replacing a link -/

/-- A link may be replaced by one with the same hashes whose fields read the same. -/
theorem linked_replace {prev : JString} {pre post : List AuditLink} {a b : AuditLink}
    (h : Linked sha256 prev (pre ++ a :: post)) (hprev : b.prevHash = a.prevHash)
    (hhash : b.hash = a.hash)
    (hread : scalars (buildHashPayload b) = scalars (buildHashPayload a)) :
    Linked sha256 prev (pre ++ b :: post) ∧
      lastHash prev (pre ++ b :: post) = lastHash prev (pre ++ a :: post) := by
  induction pre generalizing prev with
  | nil =>
    obtain ⟨h1, h2, h3⟩ := h
    have hsame : sha256Hex sha256 (buildHashPayload b) = sha256Hex sha256 (buildHashPayload a) := by
      rw [sha256Hex, sha256Hex, utf8_eq_iff.2 hread]
    refine ⟨⟨hprev.trans h1, ?_, ?_⟩, ?_⟩
    · rw [hsame, h2, hhash]
    · rw [hhash]; exact h3
    · rw [List.nil_append, List.nil_append, lastHash, lastHash, hhash]
  | cons l pre ih =>
    obtain ⟨h1, h2, h3⟩ := h
    obtain ⟨h4, h5⟩ := ih h3
    exact ⟨⟨h1, h2, h4⟩, h5⟩

/-- A text that is not plain leaves the link a second form under the same hash. -/
theorem exists_twin {a : AuditLink} (h : ∃ f ∈ texts a, ¬ Plain f) :
    ∃ b : AuditLink, b ≠ a ∧ b.prevHash = a.prevHash ∧ b.hash = a.hash ∧
      scalars (buildHashPayload b) = scalars (buildHashPayload a) := by
  obtain ⟨f, hf, hplain⟩ := h
  by_cases hbar : bar ∈ f
  · -- two neighbouring texts are cut at another separator
    have hcut : (bar ∈ a.eventType ∨ bar ∈ a.moduleId) ∨ (bar ∈ a.capability ∨ bar ∈ a.detail) := by
      simp only [texts, List.mem_cons, List.not_mem_nil, or_false] at hf
      rcases hf with rfl | rfl | rfl | rfl
      · exact Or.inl (Or.inl hbar)
      · exact Or.inl (Or.inr hbar)
      · exact Or.inr (Or.inl hbar)
      · exact Or.inr (Or.inr hbar)
    rcases hcut with hcut | hcut
    · obtain ⟨x, y, hxy, hne⟩ := Separated.resplit hcut
      refine ⟨{ a with eventType := x, moduleId := y }, ?_, rfl, rfl, congrArg scalars ?_⟩
      · exact fun e => hne (congrArg AuditLink.eventType e)
      · have := congrArg (· ++ bar :: (a.capability ++ bar :: (a.detail ++ bar :: a.prevHash))) hxy
        simpa [buildHashPayload, fields, List.intercalate_cons_cons] using this
    · obtain ⟨x, y, hxy, hne⟩ := Separated.resplit hcut
      refine ⟨{ a with capability := x, detail := y }, ?_, rfl, rfl, congrArg scalars ?_⟩
      · exact fun e => hne (congrArg AuditLink.capability e)
      · have := congrArg (· ++ bar :: a.prevHash) hxy
        simpa [buildHashPayload, fields, List.intercalate_cons_cons] using this
  · -- one text is replaced by another that is encoded alike
    have hq : '?' ∈ scalars f := not_not.1 fun hq => hplain ⟨hbar, hq⟩
    obtain ⟨g, hne, hread⟩ := exists_scalars_eq hq
    simp only [texts, List.mem_cons, List.not_mem_nil, or_false] at hf
    rcases hf with rfl | rfl | rfl | rfl
    · refine ⟨{ a with eventType := g }, fun e => hne (congrArg AuditLink.eventType e), rfl, rfl,
        ?_⟩
      simp only [buildHashPayload, fields, scalars_intercalate (c := bar) rfl, List.map_cons, hread]
    · refine ⟨{ a with moduleId := g }, fun e => hne (congrArg AuditLink.moduleId e), rfl, rfl, ?_⟩
      simp only [buildHashPayload, fields, scalars_intercalate (c := bar) rfl, List.map_cons, hread]
    · refine ⟨{ a with capability := g }, fun e => hne (congrArg AuditLink.capability e), rfl,
        rfl, ?_⟩
      simp only [buildHashPayload, fields, scalars_intercalate (c := bar) rfl, List.map_cons, hread]
    · refine ⟨{ a with detail := g }, fun e => hne (congrArg AuditLink.detail e), rfl, rfl, ?_⟩
      simp only [buildHashPayload, fields, scalars_intercalate (c := bar) rfl, List.map_cons, hread]

/-- **An intact chain is tamper evident exactly when no event type, module id, capability or
detail contains the separator, a question mark or an unpaired surrogate.** -/
theorem tamperEvident_iff (hsha : Function.Injective sha256) {chain : List AuditLink}
    (h : verify sha256 chain = -1) :
    TamperEvident sha256 chain ↔
      ∀ l ∈ chain, ∀ f ∈ texts l, bar ∉ f ∧ 0x3F ∉ f ∧ hasUnpaired f = false := by
  have hplain : ∀ f : JString, (bar ∉ f ∧ 0x3F ∉ f ∧ hasUnpaired f = false) ↔ Plain f := by
    intro f
    rw [Plain, question_mem_scalars, not_or, Bool.not_eq_true]
  simp only [hplain]
  constructor
  · intro hev l hl f hf
    by_contra hbad
    obtain ⟨b, hne, hprev, hhash, hread⟩ := exists_twin ⟨f, hf, hbad⟩
    obtain ⟨pre, post, rfl⟩ := List.append_of_mem hl
    obtain ⟨hlinked, hlast⟩ := linked_replace (verify_eq_iff.1 h) hprev hhash hread
    have heq := hev (pre ++ b :: post) (by simp)
      (by rw [headHash_eq_lastHash, headHash_eq_lastHash, hlast]) (verify_eq_iff.2 hlinked)
    exact hne (List.cons.inj (List.append_cancel_left heq)).1
  · intro htexts other hlen hhead hother
    rw [headHash_eq_lastHash, headHash_eq_lastHash] at hhead
    exact (linked_unique hsha genesisHash_plain (verify_eq_iff.1 h) (verify_eq_iff.1 hother)
      htexts hlen.symm hhead.symm).1.symm

/-! ### Two chains of one link -/

/-- SHA-256 of the text of `grantLink`. -/
def grantDigest : List UInt8 :=
  [8, 28, 194, 242, 21, 82, 80, 158, 205, 2, 145, 91, 251, 41, 151, 161, 68, 52, 117, 238,
    153, 149, 212, 176, 72, 2, 130, 1, 189, 165, 79, 125]

/-- SHA-256 of the text of `pipeLink`. -/
def pipeDigest : List UInt8 :=
  [218, 248, 148, 160, 202, 12, 188, 42, 177, 86, 130, 155, 55, 173, 6, 208, 150, 49, 82, 1,
    172, 236, 158, 7, 209, 182, 204, 167, 211, 75, 57, 136]

/-- A first link. -/
def grantLink : AuditLink where
  sequence := 0
  timestampMs := 1722556800000
  eventType := ofString "GRANT"
  moduleId := ofString "com.test.mod"
  capability := ofString "overlayfs"
  detail := ofString "approved"
  prevHash := genesisHash
  hash := ofString (String.ofList (Digits.hex grantDigest))

/-- A first link about a shell command with a pipe. -/
def pipeLink : AuditLink where
  sequence := 0
  timestampMs := 1722556800000
  eventType := ofString "EXECUTE"
  moduleId := ofString "com.test.mod"
  capability := ofString "shell"
  detail := ofString "cat /proc/meminfo " ++ bar :: ofString " grep Mem"
  prevHash := genesisHash
  hash := ofString (String.ofList (Digits.hex pipeDigest))

/-- The same link with the half of the command before the pipe moved to the capability. -/
def movedLink : AuditLink :=
  { pipeLink with
    capability := ofString "shell" ++ bar :: ofString "cat /proc/meminfo "
    detail := ofString " grep Mem" }

/-- SHA-256 on the texts of the two links, and injective elsewhere. -/
def sampleSha256 (link : AuditLink) (digest : List UInt8) : List UInt8 → List UInt8 :=
  Separated.pinned [(utf8 (buildHashPayload link), digest)] 32 0

theorem sampleSha256_injective (link : AuditLink) {digest : List UInt8}
    (h : digest.length = 32) : Function.Injective (sampleSha256 link digest) :=
  Separated.pinned_injective 0 (by simpa using h) (by simp)

theorem verify_sample {link : AuditLink} {digest : List UInt8} (hprev : link.prevHash = genesisHash)
    (hhash : link.hash = ofString (String.ofList (Digits.hex digest))) :
    verify (sampleSha256 link digest) [link] = -1 := by
  refine verify_eq_iff.2 ⟨hprev, ?_, trivial⟩
  rw [sha256Hex, sampleSha256, Separated.pinned, List.lookup_cons_self, Option.getD_some, hhash]

theorem tamperEvident_grantLink :
    verify (sampleSha256 grantLink grantDigest) [grantLink] = -1 ∧
      TamperEvident (sampleSha256 grantLink grantDigest) [grantLink] :=
  ⟨verify_sample rfl rfl,
    (tamperEvident_iff (sampleSha256_injective grantLink rfl) (verify_sample rfl rfl)).2
      (by decide)⟩

/-- Two different intact chains of the same length with the same head hash. -/
theorem tampered_pipeLink :
    Function.Injective (sampleSha256 pipeLink pipeDigest) ∧
      verify (sampleSha256 pipeLink pipeDigest) [pipeLink] = -1 ∧
      verify (sampleSha256 pipeLink pipeDigest) [movedLink] = -1 ∧
      headHash [movedLink] = headHash [pipeLink] ∧ [movedLink] ≠ [pipeLink] := by
  have hpay : buildHashPayload movedLink = buildHashPayload pipeLink := by
    simp [buildHashPayload, fields, movedLink, pipeLink]
  have hpipe : verify (sampleSha256 pipeLink pipeDigest) [pipeLink] = -1 := verify_sample rfl rfl
  refine ⟨sampleSha256_injective pipeLink rfl, hpipe, ?_, rfl, fun h => ?_⟩
  · refine verify_eq_iff.2 ⟨rfl, ?_, trivial⟩
    rw [hpay]
    exact (verify_eq_iff.1 hpipe).2.1
  · have hcap := congrArg (fun l => l.capability.length) (List.cons.inj h).1
    simp [movedLink, pipeLink] at hcap

end AuditChain

end AstraVeil.Core
