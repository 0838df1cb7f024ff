import Mathlib
import QAuth.Audit.CanonicalJson
import QAuth.Cookies.SignedCookies

/-!
# What the cookies say

The payloads of `session-cookie.ts`: the sessions of a browser in the session cookie, and the
bindings of its wallet-login flows in the wallet-flow cookie. The login-CSRF cookie's payload is its
token.
-/

namespace QAuth.Cookies

open Audit (Json)

/-- What a session cookie says. -/
structure SessionCookieContents where
  sessionIds : List String
  activeSessionId : String

/-- `{ s, a }`. -/
def SessionCookieContents.json (contents : SessionCookieContents) : Json :=
  .obj [("s", .arr (contents.sessionIds.map .str)), ("a", .str contents.activeSessionId)]

/-- What ECMAScript reads in JSON texts and numbers, which are of type `ν`. -/
structure Runtime (ν : Type) where
  /-- the value that `JSON.parse` returns for some bytes, and `none` where it throws -/
  parse : List UInt8 → Option Json
  /-- what `JSON.stringify` writes is read back -/
  parse_text : ∀ contents : SessionCookieContents,
    parse (Text.utf8Bytes contents.json.text) = some contents.json
  /-- the finite value of a number -/
  value : ν → ℚ
  /-- `Number`, where it is finite -/
  number : List Char → Option ν
  /-- `String` of a number -/
  numberText : ν → List Char
  number_numberText : ∀ x, number (numberText x) = some x
  /-- a whole number is written in decimal digits -/
  numberText_whole : ∀ x (n : ℕ), value x = n → n < 10 ^ 21 → numberText x = Nat.toDigits 10 n

variable {ν : Type} (R : Runtime ν)

def SESSION_COOKIE_NAME : CookieName := ⟨"__Host-qauth_session".toList, by decide, by decide⟩

/-- The most sessions one session cookie may list. -/
def SESSION_COOKIE_MAX_SESSIONS : ℕ := 8

/-- The longest session id a session cookie carries. -/
def MAX_SESSION_ID_LENGTH : ℕ := 128

def encodeSessionPayload (contents : SessionCookieContents) : List Char :=
  Base64Url.encode (Text.utf8Bytes contents.json.text)

def isSessionIdLength (n : ℕ) : Bool := 0 < n && n ≤ MAX_SESSION_ID_LENGTH

/-- Contents that a session cookie may have. -/
structure SessionCookieContents.Listed (contents : SessionCookieContents) : Prop where
  some_session : contents.sessionIds ≠ []
  at_most : contents.sessionIds.length ≤ SESSION_COOKIE_MAX_SESSIONS
  nodup : contents.sessionIds.Nodup
  active_mem : contents.activeSessionId ∈ contents.sessionIds
  ids : ∀ s ∈ contents.sessionIds, isSessionIdLength (Text.utf16Length s) = true

def LOGIN_CSRF_COOKIE_NAME : CookieName :=
  ⟨"__Host-qauth_login_csrf".toList, by decide, by decide⟩

def WALLET_FLOW_COOKIE_NAME : CookieName :=
  ⟨"__Host-qauth_wallet_flow".toList, by decide, by decide⟩

/-- One flow's binder, as the cookie carries it. -/
structure WalletFlowBinding (ν : Type) where
  handle : List Char
  binder : List Char
  /-- the absolute expiry of the flow, in epoch ms -/
  expiresAt : ν

def WALLET_FLOW_BINDING_SEPARATOR : Char := '|'

def WALLET_FLOW_FIELD_SEPARATOR : Char := ':'

def bindingText (b : WalletFlowBinding ν) : List Char :=
  Words.join WALLET_FLOW_FIELD_SEPARATOR [b.handle, b.binder, R.numberText b.expiresAt]

/-- The payload of some bindings. -/
def bindingsText (bindings : List (WalletFlowBinding ν)) : List Char :=
  Words.join WALLET_FLOW_BINDING_SEPARATOR (bindings.map (bindingText R))

def parseBinding (entry : List Char) : Option (WalletFlowBinding ν) :=
  match entry.splitOn WALLET_FLOW_FIELD_SEPARATOR with
  | handle :: binder :: expiresAt :: _ =>
    if handle.isEmpty || binder.isEmpty || expiresAt.isEmpty then none
    else (R.number expiresAt).map (⟨handle, binder, ·⟩)
  | _ => none

def parseBindings (payload : List Char) : List (WalletFlowBinding ν) :=
  (payload.splitOn WALLET_FLOW_BINDING_SEPARATOR).filterMap (parseBinding R)

/-- A binding that a payload can carry: the handle and the binder are base64url, the deadline a whole
number. -/
structure WalletFlowBinding.Carried (b : WalletFlowBinding ν) : Prop where
  handle : b.handle ≠ [] ∧ b.handle.all Base64Url.isDigit = true
  binder : b.binder ≠ [] ∧ b.binder.all Base64Url.isDigit = true
  deadline : ∃ n : ℕ, R.value b.expiresAt = n ∧ n < 10 ^ 21

section Bindings

variable {R} {b : WalletFlowBinding ν} {bindings : List (WalletFlowBinding ν)} {now : ℚ}

theorem isDigit_of_isDigit {c : Char} (h : c.isDigit = true) : Base64Url.isDigit c = true := by
  have hread : ∀ n ≤ 57, 48 ≤ n → Base64Url.isDigit (Char.ofNat n) = true := by decide
  simp only [Char.isDigit, Bool.and_eq_true, decide_eq_true_eq, UInt32.le_iff_toNat_le] at h
  rw [← Char.ofNat_toNat c]
  exact hread c.toNat h.2 h.1

theorem WalletFlowBinding.Carried.numberText (h : b.Carried R) :
    R.numberText b.expiresAt ≠ [] ∧ (R.numberText b.expiresAt).all Base64Url.isDigit = true := by
  obtain ⟨n, hvalue, hn⟩ := h.deadline
  rw [R.numberText_whole _ n hvalue hn]
  refine ⟨?_, List.all_eq_true.mpr fun c hc ↦ isDigit_of_isDigit ?_⟩
  · exact Nat.toDigits_ne_nil
  · exact Nat.isDigit_of_mem_toDigits (by decide) (by decide) hc

theorem WalletFlowBinding.Carried.fields (h : b.Carried R) :
    ∀ w ∈ [b.handle, b.binder, R.numberText b.expiresAt],
      w ≠ [] ∧ w.all Base64Url.isDigit = true := by
  intro w hw
  simp only [List.mem_cons, List.not_mem_nil, or_false] at hw
  rcases hw with rfl | rfl | rfl
  · exact h.handle
  · exact h.binder
  · exact h.numberText

theorem parseBinding_bindingText (h : b.Carried R) : parseBinding R (bindingText R b) = some b := by
  have hsplit : (bindingText R b).splitOn WALLET_FLOW_FIELD_SEPARATOR =
      [b.handle, b.binder, R.numberText b.expiresAt] :=
    Words.splitOn_join nofun fun w hw ↦ not_mem_of_all_isDigit (h.fields w hw).2 (by decide)
  rw [parseBinding, hsplit]
  simp [h.handle.1, h.binder.1, h.numberText.1, R.number_numberText]

/-- A character that stands neither in base64url nor between two fields. -/
theorem not_mem_bindingText (h : b.Carried R) {c : Char} (hdigit : Base64Url.isDigit c = false)
    (hfield : c ≠ WALLET_FLOW_FIELD_SEPARATOR) : c ∉ bindingText R b :=
  Words.not_mem_join hfield fun w hw ↦ not_mem_of_all_isDigit (h.fields w hw).2 hdigit

theorem not_mem_bindingsText (h : ∀ b ∈ bindings, b.Carried R) {c : Char}
    (hdigit : Base64Url.isDigit c = false) (hfield : c ≠ WALLET_FLOW_FIELD_SEPARATOR)
    (hbinding : c ≠ WALLET_FLOW_BINDING_SEPARATOR) : c ∉ bindingsText R bindings := by
  refine Words.not_mem_join hbinding fun w hw ↦ ?_
  obtain ⟨b, hb, rfl⟩ := List.mem_map.mp hw
  exact not_mem_bindingText (h b hb) hdigit hfield

/-- The bindings that a payload carries are read back. -/
theorem parseBindings_bindingsText (hne : bindings ≠ []) (h : ∀ b ∈ bindings, b.Carried R) :
    parseBindings R (bindingsText R bindings) = bindings := by
  have hsplit : (bindingsText R bindings).splitOn WALLET_FLOW_BINDING_SEPARATOR =
      bindings.map (bindingText R) := by
    refine Words.splitOn_join (by simpa using hne) fun w hw ↦ ?_
    obtain ⟨b, hb, rfl⟩ := List.mem_map.mp hw
    exact not_mem_bindingText (h b hb) (by decide) (by decide)
  rw [parseBindings, hsplit, List.filterMap_map]
  refine (List.filterMap_congr fun b hb ↦ ?_).trans List.filterMap_some
  exact parseBinding_bindingText (h b hb)

end Bindings

end QAuth.Cookies
