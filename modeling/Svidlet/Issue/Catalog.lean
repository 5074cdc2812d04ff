import Svidlet.Issue.Error
import Svidlet.Lib.Result
import Svidlet.Lib.Text

/-!
# The catalog of identities

`svidlet-issue/src/catalog.rs`: which identities may hold tokens, for which audiences, and which of
them are sensitive. The broker reads it; a catalog that does not pass `validate` is never in use, so
everything about a catalog in use may take it to be valid (`ValidCatalog`).

What matters most to the broker is that names have no underscore: a role name joins three names
with two, and can be taken apart again (`roleName_injective`).

The TOML text is read by a crate. What is rendered for Vault is in `Svidlet.Issue.Vault`.
-/

namespace Svidlet.Issue

open Lib

structure Audience where
  /-- File name under `jwt/`. -/
  aliasName : String
  /-- The `aud` claim. -/
  audience : String
  deriving DecidableEq, Repr

structure CatalogIdentity where
  /-- A cluster name, or `*` for every cluster. -/
  cluster : String
  ns : String
  serviceAccount : String
  tokenTtl : Option String
  sensitive : Bool
  audiences : List Audience
  deriving DecidableEq, Repr

def CatalogIdentity.audience (id : CatalogIdentity) (aud : String) : Option Audience :=
  id.audiences.find? fun a => a.audience = aud

structure Catalog where
  schema : Nat
  trustDomain : String
  pathTemplate : String
  /-- `mode.allowlist` -/
  allowlist : Bool
  identity : List CatalogIdentity
  /-- `sensitive.registries` -/
  registries : List String
  deriving DecidableEq, Repr

/-! ## 1. Names and durations -/

def isNameChar (c : Char) : Bool := c.isLower || c.isDigit || c = '-' || c = '.'

/-- A Kubernetes name, in particular never with `_`. -/
def isName (s : String) : Bool := !s.isEmpty && s.utf8ByteSize ≤ 253 && s.toList.all isNameChar
    && !(startsWith s "-" || startsWith s ".") && !(endsWith s "-" || endsWith s ".")

/-- `30s`, `10m`, `12h`, `3d` or bare seconds. -/
def parseDuration (text : String) : Option Nat := do
  let chars := (trim text).toList
  let number := chars.takeWhile Char.isDigit
  let unit := chars.dropWhile Char.isDigit
  let n ← parseU64 (String.ofList number)
  let scaled := fun k => if n * k < 2 ^ 64 then some (n * k) else none
  match String.ofList unit with
  | "" => some n
  | "s" => some n
  | "m" => scaled 60
  | "h" => scaled 3600
  | "d" => scaled 86400
  | _ => none

def minTokenTtl : Nat := 6 * 3600
def maxTokenTtl : Nat := 12 * 3600

/-! ## 2. Validation -/

namespace Catalog

def bad (m : String) : Error := .config ("catalog: " ++ m)

def what (id : CatalogIdentity) : String := id.cluster ++ "/" ++ id.ns ++ "/" ++ id.serviceAccount

def checkTtl (id : CatalogIdentity) : Except Error Unit :=
  match id.tokenTtl with
  | none => .ok ()
  | some ttl =>
    match parseDuration ttl with
    | none => .error (bad (what id ++ ": token_ttl " ++ debugStr ttl ++ " is not a duration"))
    | some d =>
      if minTokenTtl ≤ d ∧ d ≤ maxTokenTtl then .ok ()
      else .error (bad (what id ++ ": token_ttl " ++ ttl ++ " is outside 6h..12h"))

def isAliasChar (c : Char) : Bool := c.isLower || c.isDigit || c = '-'

/-- The audiences of one identity, with the aliases and audiences seen so far. -/
def checkAudiences (id : CatalogIdentity) (aliases auds : List String) :
    List Audience → Except Error Unit
  | [] => .ok ()
  | aud :: rest => do
    refuseIf (aud.aliasName.isEmpty ∨ 63 < aud.aliasName.utf8ByteSize ∨ ¬ aud.aliasName.toList.all isAliasChar)
      (bad (what id ++ ": alias " ++ debugStr aud.aliasName ++ " must be [a-z0-9-]"))
    refuseIf (aud.audience.isEmpty ∨ ',' ∈ aud.audience.toList)
      (bad (what id ++ ": audience " ++ debugStr aud.audience ++ " is empty or has a comma"))
    refuseIf (aud.aliasName ∈ aliases) (bad (what id ++ ": alias " ++ aud.aliasName ++ " appears twice"))
    refuseIf (aud.audience ∈ auds)
      (bad (what id ++ ": audience " ++ aud.audience ++ " appears twice"))
    checkAudiences id (aud.aliasName :: aliases) (aud.audience :: auds) rest

/-- One identity, with those seen so far. -/
def checkIdentity (seen : List (String × String × String)) (id : CatalogIdentity) :
    Except Error Unit := do
  refuseIf (id.cluster ≠ "*" ∧ ¬ isName id.cluster)
    (bad (what id ++ ": cluster is not a valid name"))
  refuseIf (¬ isName id.ns ∨ ¬ isName id.serviceAccount)
    (bad (what id ++ ": namespace and service_account must be Kubernetes names"))
  refuseIf ((id.cluster, id.ns, id.serviceAccount) ∈ seen) (bad (what id ++ " appears twice"))
  checkTtl id
  checkAudiences id [] [] id.audiences

def checkIdentities (seen : List (String × String × String)) :
    List CatalogIdentity → Except Error Unit
  | [] => .ok ()
  | id :: rest => do
    checkIdentity seen id
    checkIdentities ((id.cluster, id.ns, id.serviceAccount) :: seen) rest

def checkRegistries : List String → Except Error Unit
  | [] => .ok ()
  | registry :: rest => do
    refuseIf (¬ endsWith registry "/")
      (bad ("sensitive registry " ++ debugStr registry ++ " must end with /"))
    checkRegistries rest

def checkPlaceholders (pathTemplate : String) : List String → Except Error Unit
  | [] => .ok ()
  | placeholder :: rest => do
    refuseIf (¬ containsText pathTemplate placeholder) (bad ("path_template lacks " ++ placeholder))
    checkPlaceholders pathTemplate rest

def validate (c : Catalog) : Except Error Unit := do
  refuseIf (c.schema ≠ 1) (bad ("unsupported schema " ++ toString c.schema))
  refuseIf (c.trustDomain.isEmpty ∨ '/' ∈ c.trustDomain.toList)
    (bad ("trust_domain " ++ debugStr c.trustDomain ++ " is not a domain"))
  checkPlaceholders c.pathTemplate
    ["\x7bcluster\x7d", "\x7bnamespace\x7d", "\x7bservice_account\x7d"]
  refuseIf (¬ startsWith c.pathTemplate "/") (bad "path_template must start with /")
  checkRegistries c.registries
  checkIdentities [] c.identity

/-- The entry for an identity in a cluster. An exact cluster entry wins over a `*` entry. -/
def lookup (c : Catalog) (cluster ns serviceAccount : String) : Option CatalogIdentity :=
  let named := fun name : String => c.identity.find? fun i =>
    i.cluster = name ∧ i.ns = ns ∧ i.serviceAccount = serviceAccount
  (named cluster).or (named "*")

end Catalog

/-- A catalog that has passed its checks. -/
structure ValidCatalog where
  catalog : Catalog
  valid : catalog.validate = .ok ()

/-- `Catalog::parse`, after the TOML has been read. -/
def Catalog.checked (c : Catalog) : Except Error ValidCatalog :=
  match h : c.validate with
  | .ok () => .ok ⟨c, h⟩
  | .error e => .error e

/-! ## 3. What a valid catalog guarantees -/

namespace Catalog

/-- Every identity was checked, against some that were seen before it. -/
theorem checkIdentities_each {identities : List CatalogIdentity} :
    ∀ {seen : List (String × String × String)}, checkIdentities seen identities = .ok () →
      ∀ id ∈ identities, ∃ before, checkIdentity before id = .ok () := by
  induction identities with
  | nil =>
    intro _ _ id hid
    cases hid
  | cons first rest ih =>
    intro seen h id hid
    obtain ⟨_, hfirst, hrest⟩ := bind_ok.mp h
    rcases List.mem_cons.mp hid with rfl | hid
    · exact ⟨seen, hfirst⟩
    · exact ih hrest id hid

variable {id : CatalogIdentity}

theorem checkIdentity_names {seen : List (String × String × String)}
    (h : checkIdentity seen id = .ok ()) :
    isName id.ns = true ∧ isName id.serviceAccount = true := by
  simp only [checkIdentity, bind_ok, refuseIf_ok] at h
  obtain ⟨_, _, _, hnames, _⟩ := h
  simpa using hnames

/-- No audience is approved twice, nor any that was seen before. -/
theorem checkAudiences_nodup {list : List Audience} :
    ∀ {aliases auds : List String}, checkAudiences id aliases auds list = .ok () →
      (list.map Audience.audience).Nodup ∧ ∀ a ∈ list, a.audience ∉ auds := by
  induction list with
  | nil => simp
  | cons first rest ih =>
    intro aliases auds h
    simp only [checkAudiences, bind_ok, refuseIf_ok] at h
    obtain ⟨_, _, _, _, _, _, _, hnew, hrest⟩ := h
    obtain ⟨hnodup, hapart⟩ := ih hrest
    have hfirst : first.audience ∉ rest.map Audience.audience := by
      intro hmem
      obtain ⟨a, ha, heq⟩ := List.mem_map.mp hmem
      exact hapart a ha (by simp [heq])
    refine ⟨List.nodup_cons.mpr ⟨hfirst, hnodup⟩, List.forall_mem_cons.mpr ⟨hnew, ?_⟩⟩
    intro a ha hmem
    exact hapart a ha (.tail _ hmem)

theorem checkIdentity_audiences {seen : List (String × String × String)}
    (h : checkIdentity seen id = .ok ()) : (id.audiences.map Audience.audience).Nodup := by
  simp only [checkIdentity, bind_ok] at h
  obtain ⟨_, _, _, _, _, _, _, _, haudiences⟩ := h
  exact (checkAudiences_nodup haudiences).1

/-- An entry is found under the names it was asked for. -/
theorem lookup_names {c : Catalog} {cluster ns serviceAccount : String}
    (h : c.lookup cluster ns serviceAccount = some id) :
    id ∈ c.identity ∧ id.ns = ns ∧ id.serviceAccount = serviceAccount := by
  have named : ∀ name : String, c.identity.find? (fun i =>
      decide (i.cluster = name ∧ i.ns = ns ∧ i.serviceAccount = serviceAccount)) = some id →
      id ∈ c.identity ∧ id.ns = ns ∧ id.serviceAccount = serviceAccount := by
    intro name hfind
    have hprop := List.find?_some hfind
    simp only [decide_eq_true_eq] at hprop
    exact ⟨List.mem_of_find?_eq_some hfind, hprop.2⟩
  rcases Option.or_eq_some_iff.mp h with h | ⟨_, h⟩
  · exact named cluster h
  · exact named "*" h

end Catalog

theorem ValidCatalog.checked (c : ValidCatalog) {id : CatalogIdentity} (h : id ∈ c.catalog.identity) :
    ∃ seen, Catalog.checkIdentity seen id = .ok () := by
  have hvalid := c.valid
  simp only [Catalog.validate, bind_ok, refuseIf_ok] at hvalid
  obtain ⟨_, _, _, _, _, _, _, _, _, _, hids⟩ := hvalid
  exact Catalog.checkIdentities_each hids id h

/-- Whoever has an entry in a valid catalog has Kubernetes names. -/
theorem ValidCatalog.lookup_isName (c : ValidCatalog) {cluster ns serviceAccount : String}
    {id : CatalogIdentity} (h : c.catalog.lookup cluster ns serviceAccount = some id) :
    isName ns = true ∧ isName serviceAccount = true := by
  obtain ⟨hmem, rfl, rfl⟩ := Catalog.lookup_names h
  obtain ⟨_, hchecked⟩ := c.checked hmem
  exact Catalog.checkIdentity_names hchecked

/-! ## 4. Role names -/

/-- The Vault role of an identity. -/
def roleName (cluster ns serviceAccount : String) : String :=
  cluster ++ "__" ++ ns ++ "__" ++ serviceAccount

theorem not_mem_of_isName {s : String} {c : Char} (h : isName s = true)
    (hc : isNameChar c = false) : c ∉ s.toList := by
  intro hmem
  simp only [isName, Bool.and_eq_true, List.all_eq_true] at h
  have hchar := h.1.1.2 c hmem
  rw [hc] at hchar
  cases hchar

/-- In one cluster, a role name stands for one namespace and one ServiceAccount. -/
theorem roleName_injective {cluster ns ns' sa sa' : String} (hns : isName ns = true)
    (hns' : isName ns' = true) (h : roleName cluster ns sa = roleName cluster ns' sa') :
    ns = ns' ∧ sa = sa' := by
  have hlist := congrArg String.toList h
  simp only [roleName, String.toList_append, List.append_assoc] at hlist
  have hrest := List.append_cancel_left (List.append_cancel_left hlist)
  obtain ⟨h1, h2⟩ := append_inj_of_not_mem (not_mem_of_isName hns (by decide))
    (not_mem_of_isName hns' (by decide)) hrest
  refine ⟨String.ext h1, String.ext ?_⟩
  exact (List.cons.inj h2).2

/-- A cluster's name has no underscore either, so the role name gives that back as well. -/
theorem cluster_of_roleName {cluster cluster' ns ns' sa sa' : String} (hcluster : isName cluster = true)
    (hcluster' : isName cluster' = true) (h : roleName cluster ns sa = roleName cluster' ns' sa') :
    cluster = cluster' := by
  have hlist := congrArg String.toList h
  simp only [roleName, String.toList_append, List.append_assoc] at hlist
  exact String.ext (append_inj_of_not_mem (not_mem_of_isName hcluster (by decide))
    (not_mem_of_isName hcluster' (by decide)) hlist).1

end Svidlet.Issue
