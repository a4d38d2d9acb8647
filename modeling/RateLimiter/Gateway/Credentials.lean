import RateLimiter.Gateway.DegradedMode
import RateLimiter.Limiter.Rules

/-!
# Credentials

The key of the control plane: where a request may carry it and what it is compared with.
What is compared are the bytes of two buffers, so two secrets match when they have the same
characters, where a surrogate without its partner counts as the replacement character.
-/

namespace RateLimiter.Gateway

open RateLimiter.Javascript RateLimiter.Limiter

/-! ## Buffers -/

/-- The first half of a surrogate pair. -/
def isHigh (c : CodeUnit) : Bool := 55296 ≤ c.val ∧ c.val < 56320

/-- The second half of a surrogate pair. -/
def isLow (c : CodeUnit) : Bool := 56320 ≤ c.val ∧ c.val < 57344

/-- The character of a code unit that stands alone; of a surrogate it is U+FFFD. -/
def character (c : CodeUnit) : Char :=
  if isHigh c || isLow c then Char.ofNat 65533 else Char.ofNat c.val

/-- The characters of a string, as an encoder to UTF-8 reads them. -/
def characters : JsString → List Char
  | [] => []
  | [c] => [character c]
  | c :: d :: rest =>
      if isHigh c && isLow d then
        Char.ofNat (65536 + (c.val - 55296) * 1024 + (d.val - 56320)) :: characters rest
      else character c :: characters (d :: rest)

/-- `Buffer.from(text)`. -/
def bufferFrom (text : JsString) : ByteArray := (String.ofList (characters text)).toUTF8

/-- `timingSafeEqual`, of buffers of one length. -/
def timingSafeEqual (a b : ByteArray) : Bool := a.data = b.data

def secretsMatch (provided expected : JsString) : Bool :=
  let a := bufferFrom provided
  let b := bufferFrom expected
  if a.size ≠ b.size then false else timingSafeEqual a b

/-- Secrets match when they have the same characters. -/
theorem secretsMatch_iff {provided expected : JsString} :
    secretsMatch provided expected = true ↔ characters provided = characters expected := by
  have hbytes : bufferFrom provided = bufferFrom expected ↔
      characters provided = characters expected :=
    String.toByteArray_inj.trans String.ofList_inj
  unfold secretsMatch timingSafeEqual
  rw [← hbytes]
  dsimp only
  split
  next hsize =>
    refine iff_of_false Bool.false_ne_true fun hsame => hsize ?_
    rw [hsame]
  next => exact decide_eq_true_iff.trans ByteArray.ext_iff.symm

/-! ## The gate -/

/-- `config.auth.controlPlaneKey`, and whether `config.server.env` is `production`. -/
structure AuthConfig where
  controlPlaneKey : Option JsString
  production : Bool

/-- The headers a request may carry the key in. -/
structure Headers where
  authorization : Option JsString
  apiKey : Option JsString

/-- `provided`: a bearer token goes before `x-api-key`, even where it is wrong. -/
def Headers.provided (headers : Headers) : Option JsString :=
  let header := headers.authorization.getD []
  if js "Bearer " <+: header then some (header.drop 7) else headers.apiKey

variable {β : Type}

/-- `requireControlPlaneKey`: the response that ends a request, or `next()`. -/
def requireControlPlaneKey (config : AuthConfig) (headers : Headers) :
    Except (Response β) Unit :=
  match present config.controlPlaneKey with
  | none =>
      if config.production then
        .error (.failure 503 (js "CONTROL_PLANE_UNCONFIGURED")
          (js "Control plane authentication is not configured on this deployment") none)
      else .ok ()
  | some expected =>
      match present headers.provided with
      | some provided =>
          if secretsMatch provided expected then .ok ()
          else .error (.failure 401 (js "UNAUTHORIZED")
            (js "Valid control plane credentials required") none)
      | none =>
          .error (.failure 401 (js "UNAUTHORIZED")
            (js "Valid control plane credentials required") none)

/-- A request may use the control plane: it presents a secret with the characters of the
key, or no key is configured and the deployment is not in production. -/
def AuthConfig.Authorises (config : AuthConfig) (headers : Headers) : Prop :=
  match present config.controlPlaneKey with
  | none => config.production = false
  | some expected =>
      ∃ provided, headers.provided = some provided ∧ provided ≠ [] ∧
        characters provided = characters expected

/-- What all others are answered. -/
def AuthConfig.refusal (config : AuthConfig) : Response β :=
  match present config.controlPlaneKey with
  | none =>
      .failure 503 (js "CONTROL_PLANE_UNCONFIGURED")
        (js "Control plane authentication is not configured on this deployment") none
  | some _ =>
      .failure 401 (js "UNAUTHORIZED") (js "Valid control plane credentials required") none

/-- The gate lets through what the configuration authorises, and refuses the rest in one
way. -/
theorem requireControlPlaneKey_cases (config : AuthConfig) (headers : Headers) :
    (config.Authorises headers ∧ requireControlPlaneKey (β := β) config headers = .ok ()) ∨
      (¬ config.Authorises headers ∧
        requireControlPlaneKey (β := β) config headers = .error config.refusal) := by
  unfold AuthConfig.Authorises AuthConfig.refusal requireControlPlaneKey
  cases present config.controlPlaneKey with
  | none => cases hproduction : config.production <;> simp
  | some expected =>
      cases hprovided : headers.provided with
      | none => exact Or.inr ⟨by simp, rfl⟩
      | some provided =>
          by_cases hempty : provided = []
          · subst hempty
            exact Or.inr ⟨by simp, rfl⟩
          · have hpresent : present (some provided) = some provided := by simp [present, hempty]
            dsimp only
            rw [hpresent]
            dsimp only
            by_cases hmatch : secretsMatch provided expected = true
            · refine Or.inl ⟨⟨provided, rfl, hempty, secretsMatch_iff.mp hmatch⟩, ?_⟩
              rw [if_pos hmatch]
            · refine Or.inr ⟨?_, ?_⟩
              · rintro ⟨other, hother, -, hsame⟩
                cases hother
                exact hmatch (secretsMatch_iff.mpr hsame)
              · rw [if_neg hmatch]

end RateLimiter.Gateway
