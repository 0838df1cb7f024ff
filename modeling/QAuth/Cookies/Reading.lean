import QAuth.Cookies.Contents

/-!
# Reading a signed cookie

A browser keeps the cookies it is set and sends them in one header. A header is read for the cookie
of a name, and the value is checked for a realm.
-/

namespace QAuth.Cookies

variable {ν : Type}

/-! ### The browser -/

/-- What a browser keeps of a `Set-Cookie` header: the name and the value of its first part. -/
def store (setCookie : List Char) : Option (List Char × List Char) :=
  let pair := setCookie.takeWhile (· ≠ ';')
  if '=' ∈ pair then
    some (stripCookieWhitespace (pair.takeWhile (· ≠ '=')),
      stripCookieWhitespace ((pair.dropWhile (· ≠ '=')).tail))
  else none

def pairText (p : List Char × List Char) : List Char := p.1 ++ '=' :: p.2

/-- The header of the cookies that a browser keeps. -/
def sent (jar : List (List Char × List Char)) : List Char :=
  "; ".toList.intercalate (jar.map pairText)

/-- No blank stands at either end. -/
def Trimmed (text : List Char) : Prop :=
  (∀ c ∈ text.head?, isBlank c = false) ∧ ∀ c ∈ text.getLast?, isBlank c = false

/-- A cookie as a browser keeps it. -/
structure Kept (p : List Char × List Char) : Prop where
  some_name : p.1 ≠ []
  name : Trimmed p.1 ∧ '=' ∉ p.1 ∧ ';' ∉ p.1
  value : Trimmed p.2 ∧ ';' ∉ p.2

/-- A browser that was set a cookie sends the header: no other cookie before it has its name. -/
def Carries (header : Option (List Char)) (setCookie : List Char) : Prop :=
  ∃ before pair after, store setCookie = some pair ∧ header = some (sent (before ++ pair :: after)) ∧
    (∀ p ∈ before ++ after, Kept p) ∧ ∀ p ∈ before, p.1 ≠ pair.1

theorem stripCookieWhitespace_space (text : List Char) :
    stripCookieWhitespace (' ' :: text) = stripCookieWhitespace text :=
  rfl

section Jar

variable {p : List Char × List Char} {jar before after : List (List Char × List Char)}

theorem Kept.trimmed (h : Kept p) : Trimmed (pairText p) := by
  constructor
  · intro c hc
    rw [pairText, List.head?_append_of_ne_nil _ h.some_name] at hc
    exact h.name.1.1 c hc
  · intro c hc
    rw [pairText, List.getLast?_append_of_ne_nil _ (List.cons_ne_nil _ _)] at hc
    by_cases hvalue : p.2 = []
    · rw [hvalue] at hc
      cases hc
      rfl
    · rw [List.getLast?_cons_of_ne_nil hvalue] at hc
      exact h.value.1.2 c hc

end Jar

/-! ### What is set -/

/-- A payload that the program signs. -/
inductive Written (R : Runtime ν) : CookieName → List Char → Prop
  | session (contents : SessionCookieContents) :
      Written R SESSION_COOKIE_NAME (encodeSessionPayload contents)
  | loginCsrf (token : List UInt8) (random : token.length = 32) :
      Written R LOGIN_CSRF_COOKIE_NAME (Base64Url.encode token)
  | walletFlow (bindings : List (WalletFlowBinding ν)) (some_binding : bindings ≠ [])
      (carried : ∀ b ∈ bindings, b.Carried R) :
      Written R WALLET_FLOW_COOKIE_NAME (bindingsText R bindings)

section Set

variable {R : Runtime ν} {name : CookieName} {payload value : List Char} {realmId : RealmId}
  {reads : KeyReads} {header : Option (List Char)} {maxAge : ℕ} {secure : Bool}

/-- A payload is not empty, and its characters stand in a cookie as they are. -/
theorem Written.carried (h : Written R name payload) :
    payload ≠ [] ∧ ';' ∉ payload ∧ '%' ∉ payload := by
  have hbase64 : ∀ bytes : List UInt8, bytes ≠ [] → Base64Url.encode bytes ≠ [] ∧
      ';' ∉ Base64Url.encode bytes ∧ '%' ∉ Base64Url.encode bytes := by
    intro bytes hne
    have hdigits : (Base64Url.encode bytes).all Base64Url.isDigit = true :=
      List.all_eq_true.mpr fun c hc ↦ Base64Url.isDigit_of_mem_encode hc
    refine ⟨?_, not_mem_of_all_isDigit hdigits (by decide),
      not_mem_of_all_isDigit hdigits (by decide)⟩
    intro hempty
    have hlength := Base64Url.length_encode bytes
    have hpos := List.length_pos_of_ne_nil hne
    rw [hempty, List.length_nil] at hlength
    omega
  cases h with
  | session contents =>
    refine hbase64 _ fun hbytes ↦ ?_
    have htext : contents.json.text = [] := Text.utf8Bytes_injective hbytes
    cases htext
  | loginCsrf token random =>
    refine hbase64 _ ?_
    rintro rfl
    cases random
  | walletFlow bindings some_binding carried =>
    refine ⟨?_, not_mem_bindingsText carried (by decide) (by decide) (by decide),
      not_mem_bindingsText carried (by decide) (by decide) (by decide)⟩
    intro hempty
    have hread := parseBindings_bindingsText some_binding carried
    rw [hempty] at hread
    exact some_binding hread.symm

theorem CookieName.trimmed (name : CookieName) : Trimmed name.text := by
  have hblank : ∀ c ∈ name.text, isBlank c = false := by
    intro c hc
    by_contra hblank
    simp only [isBlank, Bool.not_eq_false, Bool.or_eq_true, decide_eq_true_eq] at hblank
    rcases hblank with rfl | rfl
    · exact name.not_mem (by decide) hc
    · exact name.not_mem (by decide) hc
  exact ⟨fun c hc ↦ hblank c (List.mem_of_mem_head? hc),
    fun c hc ↦ hblank c (List.mem_of_mem_getLast? hc)⟩

end Set

/-! ### Reading a header -/

section Reading

variable {R : Runtime ν} {reads : KeyReads} {realmId : RealmId} {name : CookieName}
  {header : Option (List Char)} {payload value : List Char} {maxAge : ℕ} {secure : Bool}

end Reading

end QAuth.Cookies
