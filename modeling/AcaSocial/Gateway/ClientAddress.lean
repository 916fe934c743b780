import AcaSocial.Base.Fields
import AcaSocial.Gateway.IdentityHeaders

/-!
# Who the client is taken for

Behind a trusted proxy, the address of the client is in `X-Forwarded-For`. The header may come in several lines, which
together are one list. `RealIP` reads the first line.

* **`rightmost`** — the last element of a list that is an address and no trusted proxy.
* **`NotSpoofed`** — the peer counts if it is no trusted proxy, and else the rightmost address of all lines, if there
  is one.
* **`FirstLineDecides`** — the lines after the first have no such address, or the first has got the same one.

`client_address_iff` says that the last two are the same, and that under them the leading elements do not change the
key of the rate limit.
-/

namespace AcaSocial.Gateway

variable {env : Env} {r r' : Request} {ip : String}

/-! ## Lists of addresses

`X-Forwarded-For` lists the addresses of a request, the client's first. Each trusted proxy adds the one that it saw.
-/

/-- The elements of one line. -/
def elements (line : String) : List String := (split line ',').map trimSpace

/-- The elements of two lists in one. -/
theorem elements_append (a b : String) : elements (a ++ "," ++ b) = elements a ++ elements b := by
  have htext : (a ++ "," ++ b).toList = a.toList ++ ',' :: b.toList := by
    rw [String.toList_append, String.toList_append, List.append_assoc]
    rfl
  rw [elements, split, htext, Text.splitOn_eq, List.splitOn_append_cons_self, List.map_append, List.map_append,
    ← Text.splitOn_eq, ← Text.splitOn_eq]
  rfl

/-- The elements of the lines together are those of each line. The induction is on the lines. -/
theorem elements_join {lines : List String} (h : lines ≠ []) : elements (join lines ",") = lines.flatMap elements := by
  induction lines with
  | nil => exact absurd rfl h
  | cons line lines ih =>
    rw [List.flatMap_cons]
    cases lines with
    | nil =>
      rw [join, String.intercalate_singleton]
      exact (List.append_nil _).symm
    | cons line' lines =>
      rw [← ih (List.cons_ne_nil line' lines), ← elements_append, join, join, String.intercalate_cons_cons]

/-- An address that is no trusted proxy. -/
def untrusted (env : Env) (ip : String) : Bool := (env.parseIP ip).isSome && !isTrustedProxy env ip

/-- The rightmost such address. -/
def rightmost (env : Env) (ips : List String) : Option String := ips.reverse.find? (untrusted env)

/-- The rightmost one is in the second list or in the first. -/
theorem rightmost_append (xs ys : List String) :
    rightmost env (xs ++ ys) = (rightmost env ys).or (rightmost env xs) := by
  rw [rightmost, List.reverse_append, List.find?_append]
  rfl

/-- What is found is no trusted proxy. -/
theorem untrusted_of_rightmost {ips : List String} (h : rightmost env ips = some ip) : untrusted env ip :=
  List.find?_some h

/-- The lines of `X-Forwarded-For`. -/
def forwardedFor (r : Request) : List String := r.header.values "X-Forwarded-For"

/-! ## The address

The first address from the right that is not a trusted proxy's. -/

/-- The address of the client is the peer, or what the trusted proxy says of it. -/
def NotSpoofed (env : Env) (r : Request) : Prop :=
  (isTrustedProxy env (remoteAddrIP env r) = false → realIP env r = remoteAddrIP env r)
    ∧ (isTrustedProxy env (remoteAddrIP env r) = true →
      ∀ ip, rightmost env (elements (join (forwardedFor r) ",")) = some ip → realIP env r = ip)

/-- The lines after the first add no address, or the one that is taken anyway: from the first line, or from
`X-Real-IP` if nothing in the first line is an address that counts. -/
def FirstLineDecides (env : Env) (r : Request) : Prop :=
  isTrustedProxy env (remoteAddrIP env r) = true →
    ∀ ip, rightmost env ((forwardedFor r).tail.flatMap elements) = some ip →
      match rightmost env (elements (r.header.get "X-Forwarded-For")) with
      | some first => first = ip
      | none => env.parseIP ((elements (r.header.get "X-Forwarded-For")).headD "") = none
        ∧ trimSpace (r.header.get "X-Real-IP") = ip

/-- One line is enough. -/
theorem firstLineDecides_of_one (h : (forwardedFor r).tail = []) : FirstLineDecides env r := by
  intro htrusted ip hip
  rw [h] at hip
  exact absurd hip.symm (Option.some_ne_none ip)

theorem elements_empty : elements "" = [""] := by decide

/-- A list has a first element. -/
theorem headD_elements (line : String) : ∃ ip rest, elements line = ip :: rest := by
  have hsome : elements line ≠ [] := by
    rw [elements, split, Text.splitOn_eq, ne_eq, List.map_eq_nil_iff, List.map_eq_nil_iff]
    exact List.splitOn_ne_nil ',' line.toList
  exact List.exists_cons_of_ne_nil hsome

/-- What the first line gives. -/
theorem clientIPFromXFF_eq (xff : String) :
    clientIPFromXFF env xff = (rightmost env (elements xff)).getD
      (if (env.parseIP ((elements xff).headD "")).isSome then (elements xff).headD "" else "") := by
  unfold clientIPFromXFF
  show (match rightmost env (elements xff) with | some ip => ip | none => _) = _
  cases rightmost env (elements xff) <;> rfl

/-- Behind a trusted proxy, an address of the first line counts. -/
theorem realIP_of_first (hempty : env.parseIP "" = none) (htrusted : isTrustedProxy env (remoteAddrIP env r) = true)
    (h : rightmost env (elements (r.header.get "X-Forwarded-For")) = some ip) : realIP env r = ip := by
  have hip : (env.parseIP ip).isSome := (Bool.and_eq_true_iff.mp (untrusted_of_rightmost h)).1
  have hne : ip ≠ "" := by
    rintro rfl
    rw [hempty] at hip
    cases hip
  have hxff : r.header.get "X-Forwarded-For" ≠ "" := by
    intro he
    rw [he, elements_empty] at h
    have hmem := List.mem_of_find?_eq_some h
    exact hne (List.mem_singleton.mp hmem)
  unfold realIP
  dsimp only
  rw [if_pos htrusted, if_neg hxff, clientIPFromXFF_eq, h, Option.getD_some, if_pos hne]

theorem trimSpace_empty : trimSpace "" = "" := by decide

/-- Without one, an untrusted address is taken from `X-Real-IP` only, and only if the first line has no address at
its beginning. -/
theorem realIP_of_none (hempty : env.parseIP "" = none) (htrusted : isTrustedProxy env (remoteAddrIP env r) = true)
    (huntrusted : untrusted env ip) (h : rightmost env (elements (r.header.get "X-Forwarded-For")) = none) :
    realIP env r = ip ↔ env.parseIP ((elements (r.header.get "X-Forwarded-For")).headD "") = none
      ∧ trimSpace (r.header.get "X-Real-IP") = ip := by
  obtain ⟨leftmost, rest, helements⟩ := headD_elements (r.header.get "X-Forwarded-For")
  obtain ⟨hip, hproxy⟩ := Bool.and_eq_true_iff.mp huntrusted
  have hother : ∀ trusted, isTrustedProxy env trusted = true → trusted ≠ ip := by
    rintro trusted htrusted' rfl
    rw [htrusted'] at hproxy
    cases hproxy
  have hxff : r.header.get "X-Forwarded-For" = "" → leftmost = "" := by
    intro he
    rw [he, elements_empty] at helements
    exact (List.cons.inj helements).1.symm
  unfold realIP
  dsimp only
  rw [if_pos htrusted, clientIPFromXFF_eq, h, Option.getD_none, helements, List.headD_cons]
  cases hleft : env.parseIP leftmost with
  | some parsed =>
    -- the first element is an address, and a trusted proxy
    have hne : leftmost ≠ "" := by
      rintro rfl
      cases hempty.symm.trans hleft
    have hleftmost : isTrustedProxy env leftmost = true := by
      have hnot := List.find?_eq_none.mp h leftmost (by rw [helements]; simp)
      simpa [untrusted, hleft] using hnot
    rw [Option.isSome_some, if_pos rfl, if_neg fun he => hne (hxff he), if_pos hne]
    exact iff_of_false (hother leftmost hleftmost) fun hnone => (by cases hnone.1)
  | none =>
    have hnothing : (if r.header.get "X-Forwarded-For" = "" then "" else
        if (none : Option String).isSome = true then leftmost else "") = "" := by
      split <;> rfl
    rw [hnothing, if_neg (fun hne => hne rfl), eq_self, true_and]
    constructor
    · intro hreal
      split at hreal
      · exact hreal
      · exact absurd hreal (hother _ htrusted)
    · rintro rfl
      refine if_pos ⟨?_, hip⟩
      intro he
      rw [he, trimSpace_empty, hempty] at hip
      cases hip

/-! ## Requests

The address that the gateway takes is the right one exactly when the header is on one line. -/

/-- All lines together have the rightmost address of the later lines, or else that of the first one. -/
theorem rightmost_forwardedFor (r : Request) :
    rightmost env (elements (join (forwardedFor r) ","))
      = (rightmost env ((forwardedFor r).tail.flatMap elements)).or
        (rightmost env (elements (r.header.get "X-Forwarded-For"))) := by
  rw [Header.get]
  show _ = (rightmost env ((forwardedFor r).tail.flatMap elements)).or
    (rightmost env (elements ((forwardedFor r).headD "")))
  cases hlines : forwardedFor r with
  | nil =>
    rw [join, String.intercalate_nil]
    rfl
  | cons line lines =>
    rw [elements_join (List.cons_ne_nil line lines), List.flatMap_cons, rightmost_append]
    rfl

/-- **One request** has the right address exactly when its first line decides. -/
theorem notSpoofed_iff (hempty : env.parseIP "" = none) (r : Request) :
    NotSpoofed env r ↔ FirstLineDecides env r := by
  have hdirect : isTrustedProxy env (remoteAddrIP env r) = false → realIP env r = remoteAddrIP env r := by
    intro hpeer
    unfold realIP
    dsimp only
    rw [hpeer]
    rfl
  refine (and_iff_right hdirect).trans (imp_congr_right fun htrusted => ?_)
  rw [rightmost_forwardedFor]
  cases hlater : rightmost env ((forwardedFor r).tail.flatMap elements) with
  | none =>
    refine iff_of_true (fun ip hip => ?_) (fun _ h => by cases h)
    exact realIP_of_first hempty htrusted hip
  | some later =>
    rw [Option.some_or]
    simp only [Option.some.injEq, forall_eq']
    cases hfirst : rightmost env (elements (r.header.get "X-Forwarded-For")) with
    | some first =>
      rw [realIP_of_first hempty htrusted hfirst]
    | none => exact realIP_of_none hempty htrusted (untrusted_of_rightmost hlater) hfirst

/-- **The client address** of a request is right exactly when the first line of `X-Forwarded-For` decides. Two such
requests that differ in what stands before the elements of the trusted proxy share the key of the rate limit. -/
theorem client_address_iff (hempty : env.parseIP "" = none) :
    (∀ r, NotSpoofed env r ↔ FirstLineDecides env r)
      ∧ ∀ (r r' : Request) (lead lead' own : List String) (routeScope : String), r.remoteAddr = r'.remoteAddr →
        elements (join (forwardedFor r) ",") = lead ++ own →
        elements (join (forwardedFor r') ",") = lead' ++ own → (rightmost env own).isSome →
        FirstLineDecides env r → FirstLineDecides env r' →
        rateLimitKey env routeScope r = rateLimitKey env routeScope r' := by
  refine ⟨notSpoofed_iff hempty, fun r r' lead lead' own routeScope hpeer hr hr' hown hfirst hfirst' => ?_⟩
  have hnot := (notSpoofed_iff hempty r).mpr hfirst
  have hnot' := (notSpoofed_iff hempty r').mpr hfirst'
  have hdirect : remoteAddrIP env r = remoteAddrIP env r' := by rw [remoteAddrIP, hpeer, remoteAddrIP]
  obtain ⟨ip, hip⟩ := Option.isSome_iff_exists.mp hown
  have hreal : realIP env r = realIP env r' := by
    cases htrusted : isTrustedProxy env (remoteAddrIP env r) with
    | false => rw [hnot.1 htrusted, hnot'.1 (hdirect ▸ htrusted), hdirect]
    | true =>
      rw [hnot.2 htrusted ip (by rw [hr, rightmost_append, hip, Option.some_or]),
        hnot'.2 (hdirect ▸ htrusted) ip (by rw [hr', rightmost_append, hip, Option.some_or])]
  rw [rateLimitKey, hreal, rateLimitKey]

namespace Sample

/-- A gateway behind one load balancer, and the addresses of two clients. -/
def behindProxy : Env :=
  { gateway with
    trustedProxies := ⟨[], ["10.0.0.1"]⟩
    parseIP := fun s => if ["10.0.0.1", "203.0.113.7", "198.51.100.1", "198.51.100.2"].contains s then some s else none }

/-- A request that comes through the load balancer with these lines. -/
def through (lines : List String) : Request :=
  listDiscussions (lines.foldl (fun h line => h.add "X-Forwarded-For" line) .empty) 0

end Sample

/-- An address that the client writes before its own one does not give it a window of its own. -/
theorem client_address_iff_one_line :
    rateLimitKey Sample.behindProxy "POST /api/auth/login" (Sample.through ["198.51.100.1, 203.0.113.7"])
      = rateLimitKey Sample.behindProxy "POST /api/auth/login" (Sample.through ["198.51.100.2, 203.0.113.7"]) := by
  have hempty : Sample.behindProxy.parseIP "" = none := by decide +kernel
  have hown : (rightmost Sample.behindProxy ["203.0.113.7"]).isSome = true := by decide +kernel
  have hlist : elements (join (forwardedFor (Sample.through ["198.51.100.1, 203.0.113.7"])) ",")
      = ["198.51.100.1"] ++ ["203.0.113.7"] := by decide +kernel
  have hlist' : elements (join (forwardedFor (Sample.through ["198.51.100.2, 203.0.113.7"])) ",")
      = ["198.51.100.2"] ++ ["203.0.113.7"] := by decide +kernel
  have hone : (forwardedFor (Sample.through ["198.51.100.1, 203.0.113.7"])).tail = [] := by decide +kernel
  have hone' : (forwardedFor (Sample.through ["198.51.100.2, 203.0.113.7"])).tail = [] := by decide +kernel
  have hfirst := @firstLineDecides_of_one Sample.behindProxy _ hone
  have hfirst' := @firstLineDecides_of_one Sample.behindProxy _ hone'
  have hpeer : (Sample.through ["198.51.100.1, 203.0.113.7"]).remoteAddr
      = (Sample.through ["198.51.100.2, 203.0.113.7"]).remoteAddr := rfl
  exact (client_address_iff hempty).2 (Sample.through ["198.51.100.1, 203.0.113.7"])
    (Sample.through ["198.51.100.2, 203.0.113.7"]) ["198.51.100.1"] ["198.51.100.2"] ["203.0.113.7"]
    "POST /api/auth/login" hpeer hlist hlist' hown
    hfirst hfirst'

/-- The load balancer adds a line of its own, and the line of the client is believed. -/
theorem not_notSpoofed_two_lines :
    ¬ NotSpoofed Sample.behindProxy (Sample.through ["198.51.100.1", "203.0.113.7"]) := by
  intro h
  obtain ⟨-, hproxy⟩ := h
  have hreal : realIP Sample.behindProxy (Sample.through ["198.51.100.1", "203.0.113.7"]) = "203.0.113.7" :=
    hproxy (by decide +kernel) "203.0.113.7" (by decide +kernel)
  exact absurd hreal (by decide +kernel)

end AcaSocial.Gateway
