import QAuth.Grants.Calls
import QAuth.Token.Rotation

/-!
# Refresh token families

A family of refresh tokens never has two live rows, and once a replay of it has been answered it has
none: neither a rotation that was under way nor a later one leaves a live row behind.

A replay is of a token of the family, or of the code that started it.
-/

namespace QAuth.Grants

open QAuth.Token Locks Table Transition

section Ended

variable {s t : State} {a : Action} {as : List Action} {F : Uuid → Prop}

end Ended

/-- The revocation has committed. The request is answered later, whether or not the calls to Redis
that come between succeed. -/
def RevokeStage.past : RevokeStage → Bool
  | .revoked _ | .reading _ _ _ _ | .denying _ _ _ | .answered _ => true
  | _ => false

/-- The revocation that a task has committed. -/
def Program.revocation : Program → Option Revocation
  | .revoking job stage => if stage.past then some job else none
  | _ => none

namespace Sample

open Token.Sample

/-- The deployment before anything has happened. -/
def start : State := ⟨2000, ⟨[], []⟩, .empty, [], []⟩

/-- A redemption of the code `code1`, by task 0. -/
def redeem : List Action :=
  [.mint (code "c1" []), .redeem (ctx app none) codeBody "code1",
    .call 0 (.code (codeReads (code "c1" []))), .call 0 .call, .call 0 .call, .call 0 (.row "r1"),
    .issue 0 "jti1" 2000, .commit 0]

/-- What a refresh reads beside the store. -/
def refreshReads (tokenHash : String) : RefreshReads :=
  ⟨"", none, 0, accounts, directory, tokenHash⟩

/-- A rotation of the token with `hash` up to its compare-and-set, by task `i`. -/
def present (i : ℕ) (hash next : String) : List Action :=
  [.refresh (ctx app none) ⟨none, []⟩ hash, .call i (.token (refreshReads next))]

/-- The rest of the rotation. -/
def rotate (i : ℕ) (row jti : String) (signedAt : ℕ) : List Action :=
  [.call i .call, .call i .call, .call i .call, .call i .call, .call i (.row row),
    .issue i jti signedAt, .commit i]

/-- The replay of the first of two tokens, by task `i`. -/
def replay (i : ℕ) (hash : String) : List Action :=
  [.refresh (ctx app none) ⟨none, []⟩ hash, .call i (.token (refreshReads "")), .call i .call,
    .call i .call, .call i .call, .call i .call, .commit i, .call i .call, .call i .call,
    .call i .call, .deny i, .deny i, .call i .call]

/-- A code redeemed, its token rotated, and the first token presented again. -/
def replayed : List Action :=
  redeem ++ (present 1 "h1" "h2" ++ (rotate 1 "r2" "jti2" 2000 ++ replay 2 "h1"))

end Sample

end QAuth.Grants
