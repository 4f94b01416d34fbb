/-
The numbers of a published RSA key are read back exactly.

* `urlsafeB64decode`, `restorePadding`, `readUint`: how a reader of a JSON web
  key turns its text into bytes and these into a number;
* `urlsafeB64decode_encode`, `rdropWhile_restorePadding`: the bytes that were
  encoded are decoded, and cutting the padding off is undone by restoring it;
* `Publishes`: what a text of a positive number has to be;
* `b64urlUint_lossless`: every positive number is published as its shortest
  bytes, and no two of them in the same way.
-/
import GofrSec.BigEndian
import GofrSec.Services.Signer

namespace GofrSec

open BigEndian

/-! ### Reading URL-safe base64 -/

/-- The six bits of a character. -/
def urlsafeSextet (c : Char) : Option ℕ :=
  if c ∈ urlsafeAlphabet then some (urlsafeAlphabet.idxOf c) else none

/-- The bytes of four characters; one or two `=` stand for bytes that are not there. -/
def decodeGroup (a b c d : Char) : Option (List ℕ) := do
  let x ← urlsafeSextet a
  let y ← urlsafeSextet b
  if c = '=' ∧ d = '=' then
    return [x * 4 + y / 16]
  let z ← urlsafeSextet c
  if d = '=' then
    return [x * 4 + y / 16, y % 16 * 16 + z / 4]
  let w ← urlsafeSextet d
  return [x * 4 + y / 16, y % 16 * 16 + z / 4, z % 4 * 64 + w]

/-- The bytes of a padded text; padding is accepted at its end only. -/
def urlsafeB64decode : List Char → Option (List ℕ)
  | [] => some []
  | a :: b :: c :: d :: rest => do
      let bytes ← decodeGroup a b c d
      let more ← urlsafeB64decode rest
      if d = '=' ∧ rest ≠ [] then none else return bytes ++ more
  | _ => none

/-- The text filled up to a multiple of four characters. -/
def restorePadding (text : List Char) : List Char :=
  text ++ List.replicate ((4 - text.length % 4) % 4) '='

/-- The number a reader gets from the text of a key's field. -/
def readUint (text : String) : Option ℕ :=
  (urlsafeB64decode (restorePadding text.toList)).map (ofBigEndian 256)

/-! ### The alphabet -/

lemma urlsafeAlphabet_nodup : urlsafeAlphabet.Nodup := by
  decide +kernel

lemma urlsafeAlphabet_length : urlsafeAlphabet.length = 64 := by
  decide +kernel

lemma urlsafeChar_eq {s : ℕ} (hs : s < 64) :
    urlsafeChar s = urlsafeAlphabet.get ⟨s, urlsafeAlphabet_length.symm ▸ hs⟩ :=
  List.getD_eq_getElem _ _ _

lemma urlsafeChar_mem {s : ℕ} (hs : s < 64) : urlsafeChar s ∈ urlsafeAlphabet := by
  rw [urlsafeChar_eq hs]
  exact List.get_mem _ _

/-- No character stands for two sextets. -/
lemma urlsafeSextet_urlsafeChar {s : ℕ} (hs : s < 64) :
    urlsafeSextet (urlsafeChar s) = some s := by
  rw [urlsafeSextet, if_pos (urlsafeChar_mem hs), urlsafeChar_eq hs, List.get_eq_getElem,
    urlsafeAlphabet_nodup.idxOf_getElem]

lemma eq_notMem_urlsafeAlphabet : '=' ∉ urlsafeAlphabet := by
  decide +kernel

lemma urlsafeChar_ne {s : ℕ} (hs : s < 64) : urlsafeChar s ≠ '=' :=
  fun h => eq_notMem_urlsafeAlphabet (h ▸ urlsafeChar_mem hs)

/-! ### Decoding what was encoded -/

variable {bytes : List ℕ}

/-- What is encoded is a text of the alphabet with its padding restored. -/
lemma urlsafeB64encode_eq (h : ∀ b ∈ bytes, b < 256) :
    ∃ text, urlsafeB64encode bytes = restorePadding text ∧ ∀ c ∈ text, c ∈ urlsafeAlphabet := by
  induction bytes using urlsafeB64encode.induct with
  | case1 a b c rest ih =>
      have hb : ∀ x ∈ [a, b, c], x < 256 := fun x hx => h x (by simp at hx ⊢; tauto)
      simp only [List.forall_mem_cons] at hb
      obtain ⟨ha, hb, hc, -⟩ := hb
      obtain ⟨text, heq, halphabet⟩ := ih fun x hx => h x (by simp [hx])
      refine ⟨urlsafeChar (a / 4) :: urlsafeChar (a % 4 * 16 + b / 16)
        :: urlsafeChar (b % 16 * 4 + c / 64) :: urlsafeChar (c % 64) :: text, ?_, ?_⟩
      · rw [urlsafeB64encode, heq]
        simp [restorePadding, Nat.add_assoc]
      · simp only [List.forall_mem_cons]
        exact ⟨urlsafeChar_mem (by omega), urlsafeChar_mem (by omega),
          urlsafeChar_mem (by omega), urlsafeChar_mem (by omega), halphabet⟩
  | case2 a b =>
      simp only [List.forall_mem_cons] at h
      refine ⟨[urlsafeChar (a / 4), urlsafeChar (a % 4 * 16 + b / 16),
        urlsafeChar (b % 16 * 4)], rfl, ?_⟩
      simp only [List.forall_mem_cons]
      exact ⟨urlsafeChar_mem (by omega), urlsafeChar_mem (by omega), urlsafeChar_mem (by omega),
        by simp⟩
  | case3 a =>
      simp only [List.forall_mem_cons] at h
      refine ⟨[urlsafeChar (a / 4), urlsafeChar (a % 4 * 16)], rfl, ?_⟩
      simp only [List.forall_mem_cons]
      exact ⟨urlsafeChar_mem (by omega), urlsafeChar_mem (by omega), by simp⟩
  | case4 => exact ⟨[], rfl, by simp⟩

lemma urlsafeB64decode_encode (h : ∀ b ∈ bytes, b < 256) :
    urlsafeB64decode (urlsafeB64encode bytes) = some bytes := by
  induction bytes using urlsafeB64encode.induct with
  | case1 a b c rest ih =>
      have hb : ∀ x ∈ [a, b, c], x < 256 := fun x hx => h x (by simp at hx ⊢; tauto)
      simp only [List.forall_mem_cons] at hb
      obtain ⟨ha, hb, hc, -⟩ := hb
      have hthird : urlsafeChar (b % 16 * 4 + c / 64) ≠ '=' := urlsafeChar_ne (by omega)
      have hlast : urlsafeChar (c % 64) ≠ '=' := urlsafeChar_ne (by omega)
      rw [urlsafeB64encode, urlsafeB64decode, ih fun x hx => h x (by simp [hx])]
      simp only [decodeGroup, urlsafeSextet_urlsafeChar (show a / 4 < 64 by omega),
        urlsafeSextet_urlsafeChar (show a % 4 * 16 + b / 16 < 64 by omega),
        urlsafeSextet_urlsafeChar (show b % 16 * 4 + c / 64 < 64 by omega),
        urlsafeSextet_urlsafeChar (show c % 64 < 64 by omega), hthird, hlast]
      simp
      omega
  | case2 a b =>
      simp only [List.forall_mem_cons] at h
      have hthird : urlsafeChar (b % 16 * 4) ≠ '=' := urlsafeChar_ne (by omega)
      rw [urlsafeB64encode, urlsafeB64decode, urlsafeB64decode]
      simp only [decodeGroup, urlsafeSextet_urlsafeChar (show a / 4 < 64 by omega),
        urlsafeSextet_urlsafeChar (show a % 4 * 16 + b / 16 < 64 by omega),
        urlsafeSextet_urlsafeChar (show b % 16 * 4 < 64 by omega), hthird]
      simp
      omega
  | case3 a =>
      simp only [List.forall_mem_cons] at h
      rw [urlsafeB64encode, urlsafeB64decode, urlsafeB64decode]
      simp only [decodeGroup, urlsafeSextet_urlsafeChar (show a / 4 < 64 by omega),
        urlsafeSextet_urlsafeChar (show a % 4 * 16 < 64 by omega)]
      simp
      omega
  | case4 => rfl

/-- Cutting the padding off a padded text gives the text back. -/
lemma rdropWhile_restorePadding {text : List Char} (h : '=' ∉ text) :
    (restorePadding text).rdropWhile (· == '=') = text := by
  have hkeep : text.reverse.dropWhile (· == '=') = text.reverse := by
    cases hrev : text.reverse with
    | nil => rfl
    | cons c rest =>
        have hc : c ≠ '=' := fun heq =>
          h (List.mem_reverse.mp (hrev ▸ heq ▸ List.mem_cons_self))
        exact List.dropWhile_cons_of_neg (by simpa using hc)
  rw [List.rdropWhile, restorePadding, List.reverse_append, List.reverse_replicate,
    List.dropWhile_append_of_pos (by simp), hkeep, List.reverse_reverse]

/-! ### The bytes of a number -/

/-- `(value.bit_length() + 7) // 8` bytes are needed and suffice. -/
lemma needs_bytes (n : ℕ) : Needs 256 n ((n.size + 7) / 8) := by
  have hpow : ∀ j, 256 ^ j = 2 ^ (8 * j) := fun j => by rw [Nat.pow_mul]
  constructor
  · rw [hpow, ← Nat.size_le]
    omega
  · intro j hj
    rw [hpow, ← Nat.lt_size]
    omega

/-- What the text of a number has to be: in the alphabet, without padding, and once that
is restored the shortest bytes of the number, which do not begin with a zero. -/
structure Publishes (text : String) (n : ℕ) (bytes : List ℕ) : Prop where
  alphabet : ∀ c ∈ text.toList, c ∈ urlsafeAlphabet
  unpadded : '=' ∉ text.toList
  decodes : urlsafeB64decode (restorePadding text.toList) = some bytes
  number : IsBigEndian 256 bytes n
  shortest : ∀ other, IsBigEndian 256 other n → bytes.length ≤ other.length
  first : bytes.head? ≠ some 0

lemma publishes_b64urlUint (n : ℕ) :
    Publishes (b64urlUint n) n (toBytes n ((n.size + 7) / 8)) := by
  have hneeds : Needs 256 n (toBytes n ((n.size + 7) / 8)).length := by
    rw [toBytes, List.length_map, List.length_reverse, List.length_range]
    exact needs_bytes n
  have hnumber : IsBigEndian 256 (toBytes n ((n.size + 7) / 8)) n :=
    isBigEndian_map (by omega) (needs_bytes n)
  obtain ⟨text, heq, halphabet⟩ := urlsafeB64encode_eq hnumber.digits
  have hunpadded : '=' ∉ text := fun hmem => eq_notMem_urlsafeAlphabet (halphabet _ hmem)
  have htext : (b64urlUint n).toList = text := by
    rw [b64urlUint, heq, rdropWhile_restorePadding hunpadded, String.toList_ofList]
  exact
    { alphabet := htext ▸ halphabet
      unpadded := htext ▸ hunpadded
      decodes := by rw [htext, ← heq, urlsafeB64decode_encode hnumber.digits]
      number := hnumber
      shortest := fun other hother => hother.length_le (by omega) hneeds
      first := hnumber.head_ne_zero (by omega) hneeds }

lemma readUint_b64urlUint (n : ℕ) : readUint (b64urlUint n) = some n := by
  have hpub := publishes_b64urlUint n
  rw [readUint, hpub.decodes, Option.map_some, hpub.number.value]

/-- The number in the field `name` of a JSON web key. -/
def jwkUint (jwk : Doc) (name : String) : Option ℕ :=
  (jwk.field name).bind fun text => text.asString.bind readUint

/-- A positive number is published as its shortest bytes, the modulus and the exponent of
a published key are read back exactly, and no two positive numbers have one text. -/
theorem b64urlUint_lossless :
    (∀ n, 0 < n → ∃ bytes, Publishes (b64urlUint n) n bytes)
      ∧ (∀ (C : Crypto) pem keyId algorithm n e, 0 < n → 0 < e →
          C.rsaPublicNumbers pem = .ok (some (n, e)) →
          ∃ jwk, publicKeyToJwk C pem keyId algorithm = .ok jwk
            ∧ jwkUint jwk "n" = some n ∧ jwkUint jwk "e" = some e)
      ∧ ∀ m n, 0 < m → 0 < n → b64urlUint m = b64urlUint n → m = n := by
  refine ⟨fun n _ => ⟨_, publishes_b64urlUint n⟩, ?_, ?_⟩
  · intro C pem keyId algorithm n e _ _ hnumbers
    refine ⟨_, by rw [publicKeyToJwk, hnumbers]; rfl, ?_, ?_⟩
    · simp [jwkUint, Doc.field, findEntry, Json.asString, readUint_b64urlUint]
    · simp [jwkUint, Doc.field, findEntry, Json.asString, readUint_b64urlUint]
  · intro m n _ _ heq
    have hsome : some m = some n := by
      rw [← readUint_b64urlUint m, heq, readUint_b64urlUint]
    exact Option.some.inj hsome

end GofrSec
