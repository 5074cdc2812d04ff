import Svidlet.Issue.Catalog
import Svidlet.Lib.Quote

/-!
# What Vault is told

"CI renders the same file into the Vault SPIFFE roles and the per-cluster broker policies, so Vault
enforces it independently of the broker."  The broker asks `lookup`, for one identity at a time;
`render_policy` and `render_roles` write down what holds for all identities of a cluster.

> Vault lets a broker mint exactly the tokens that `lookup` would approve.

What is written is a list of grants and of roles first (sections 1 and 2), and a text then. The text
can be read in one way only, since audiences are quoted (section 3).
-/

namespace Svidlet.Issue

open Lib

/-- `DEFAULT_TOKEN_TTL`, in seconds. -/
def defaultTokenTtl : Nat := 12 * 3600

/-- `Identity::token_ttl`, in seconds. -/
def CatalogIdentity.ttlSecs (id : CatalogIdentity) : Nat :=
  (id.tokenTtl.bind parseDuration).getD defaultTokenTtl

/-! ## 1. What is rendered -/

namespace Catalog

/-- Where the entry is that `lookup` answers. -/
def lookupIdx (c : Catalog) (cluster ns serviceAccount : String) : Option Nat :=
  let named := fun name : String => c.identity.findIdx? fun i =>
    i.cluster = name ∧ i.ns = ns ∧ i.serviceAccount = serviceAccount
  (named cluster).or (named "*")

/-- Every identity that applies to a cluster, exact entries shadowing `*`. The code compares where
    entries are, not what they say. -/
def forCluster (c : Catalog) (cluster : String) : List CatalogIdentity :=
  let out := c.identity.zipIdx.filterMap fun (id, i) =>
    if id.cluster ≠ cluster ∧ id.cluster ≠ "*" then none
    else if c.lookupIdx cluster id.ns id.serviceAccount = some i then some id else none
  out.mergeSort fun a b =>
    decide (a.ns < b.ns ∨ a.ns = b.ns ∧ a.serviceAccount ≤ b.serviceAccount)

/-- The identities that something is rendered for. -/
def rendered (c : Catalog) (cluster : String) : List CatalogIdentity :=
  (c.forCluster cluster).filter fun id => !id.audiences.isEmpty

/-- The path in `sub`, relative to the trust domain. -/
def subjectPath (c : Catalog) (cluster ns serviceAccount : String) : String :=
  replaceText (replaceText (replaceText c.pathTemplate "\x7bcluster\x7d" cluster)
    "\x7bnamespace\x7d" ns) "\x7bservice_account\x7d" serviceAccount

end Catalog

def mintPath (mount role : String) : String :=
  "path \"" ++ mount ++ "/role/" ++ role ++ "/mintjwt\" \x7b"

def mintParameters (auds : List String) : String :=
  "  allowed_parameters = \x7b \"audience\" = [" ++ ", ".intercalate (auds.map debugStr) ++ "] \x7d"

/-- The lines that let a role mint for these audiences. -/
def mintLines (mount role : String) (auds : List String) : List String :=
  [mintPath mount role, "  capabilities       = [\"update\"]", mintParameters auds, "\x7d"]

/-- The line that creates a role. -/
def roleLine (mount role path : String) (ttl : Nat) : String :=
  "vault write " ++ mount ++ "/role/" ++ role ++ " template='\x7b\"sub\":" ++ jsonStr path
    ++ "\x7d' ttl=" ++ toString ttl ++ "s use_jti_claim=true"

namespace Catalog

def policyLines (c : Catalog) (cluster pkiMount pkiRole spiffeMount : String) : List String :=
  ["# svidlet-broker-" ++ cluster ++ " — generated from the catalog; do not edit",
    "path \"" ++ trimMatches '/' pkiMount ++ "/sign/" ++ pkiRole
      ++ "\" \x7b capabilities = [\"update\"] \x7d"]
  ++ (c.rendered cluster).flatMap fun id =>
    "" :: mintLines (trimMatches '/' spiffeMount) (roleName cluster id.ns id.serviceAccount)
      (id.audiences.map (·.audience))

/-- The Vault policy for one cluster's broker. -/
def renderPolicy (c : Catalog) (cluster pkiMount pkiRole spiffeMount : String) : String :=
  writeLines (c.policyLines cluster pkiMount pkiRole spiffeMount)

/-- The commands that create one cluster's SPIFFE roles. -/
def renderRoles (c : Catalog) (cluster spiffeMount : String) : String :=
  writeLines ((c.rendered cluster).map fun id =>
    roleLine (trimMatches '/' spiffeMount) (roleName cluster id.ns id.serviceAccount)
      (c.subjectPath cluster id.ns id.serviceAccount) id.ttlSecs)

/-- The grants of the policy, in its order. -/
def granted (c : Catalog) (cluster : String) : List (String × String) :=
  (c.rendered cluster).flatMap fun id =>
    id.audiences.map fun a => (roleName cluster id.ns id.serviceAccount, a.audience)

end Catalog

/-- A role as it is created. -/
structure RoleWrite where
  role : String
  path : String
  ttl : Nat
  deriving DecidableEq, Repr

def Catalog.roleWrites (c : Catalog) (cluster : String) : List RoleWrite :=
  (c.rendered cluster).map fun id => ⟨roleName cluster id.ns id.serviceAccount,
    c.subjectPath cluster id.ns id.serviceAccount, id.ttlSecs⟩

/-! ## 2. Lookup and rendering agree -/

namespace Catalog

variable {c : Catalog} {cluster ns serviceAccount : String} {id : CatalogIdentity}

theorem lookup_eq_bind (c : Catalog) (cluster ns serviceAccount : String) :
    c.lookup cluster ns serviceAccount =
      (c.lookupIdx cluster ns serviceAccount).bind (c.identity[·]?) := by
  have hnamed : ∀ p : CatalogIdentity → Bool,
      c.identity.find? p = (c.identity.findIdx? p).bind (c.identity[·]?) :=
    fun p => List.find?_eq_bind_findIdx?_getElem?
  simp only [lookup, lookupIdx]
  cases hexact : c.identity.findIdx? fun i =>
      decide (i.cluster = cluster ∧ i.ns = ns ∧ i.serviceAccount = serviceAccount) with
  | none => rw [hnamed, hexact, hnamed]; rfl
  | some i =>
    obtain ⟨hi, -, -⟩ := List.findIdx?_eq_some_iff_getElem.mp hexact
    rw [hnamed, hexact]
    simp [hi]

theorem lookup_cluster (h : c.lookup cluster ns serviceAccount = some id) :
    id.cluster = cluster ∨ id.cluster = "*" := by
  obtain h | ⟨-, h⟩ := Option.or_eq_some_iff.mp h
  · have hprop := List.find?_some h
    simp only [decide_eq_true_eq] at hprop
    exact .inl hprop.1
  · have hprop := List.find?_some h
    simp only [decide_eq_true_eq] at hprop
    exact .inr hprop.1

/-- The entries of a cluster are those that `lookup` answers under their own names. -/
theorem mem_forCluster :
    id ∈ c.forCluster cluster ↔ c.lookup cluster id.ns id.serviceAccount = some id := by
  simp only [forCluster, List.mem_mergeSort, List.mem_filterMap, Prod.exists]
  constructor
  · intro h
    obtain ⟨id', i, hmem, h⟩ := h
    split at h
    · cases h
    split at h
    · rename_i hat
      obtain rfl := Option.some.inj h
      rw [lookup_eq_bind, hat]
      exact List.mem_zipIdx_iff_getElem?.mp hmem
    · cases h
  · intro h
    have hcluster := lookup_cluster h
    rw [lookup_eq_bind, Option.bind_eq_some_iff] at h
    obtain ⟨i, hat, hid⟩ := h
    refine ⟨id, i, List.mem_zipIdx_iff_getElem?.mpr hid, ?_⟩
    rw [if_neg (by tauto), if_pos hat]

/-- Two entries of a cluster are for two namespaces or two ServiceAccounts. -/
theorem forCluster_nodup (c : Catalog) (cluster : String) :
    ((c.forCluster cluster).map fun id => (id.ns, id.serviceAccount)).Nodup := by
  refine ((List.mergeSort_perm _ _).map _).nodup_iff.mpr ?_
  rw [List.Nodup, List.pairwise_map, List.pairwise_filterMap]
  have hplaces : c.identity.zipIdx.Pairwise fun x y => x.2 ≠ y.2 := by
    rw [← List.pairwise_map]
    exact List.nodup_zipIdx_map_snd _
  refine hplaces.imp ?_
  -- both are where `lookup` finds the entry for the same names
  have hat : ∀ x : CatalogIdentity × Nat, ∀ id, (if x.1.cluster ≠ cluster ∧ x.1.cluster ≠ "*" then none
      else if c.lookupIdx cluster x.1.ns x.1.serviceAccount = some x.2 then some x.1 else none)
        = some id → c.lookupIdx cluster id.ns id.serviceAccount = some x.2 := by
    intro x id h
    split at h
    · cases h
    split at h
    · obtain rfl := Option.some.inj h
      assumption
    · cases h
  intro x y hne a ha b hb hsame
  have hx := hat x a ha
  have hy := hat y b hb
  rw [(Prod.mk.inj hsame).1, (Prod.mk.inj hsame).2, hy] at hx
  exact hne (Option.some.inj hx).symm

end Catalog

section

variable (c : ValidCatalog) (cluster : String)

theorem CatalogIdentity.audience_isSome {id : CatalogIdentity} {aud : String} :
    (id.audience aud).isSome ↔ ∃ a ∈ id.audiences, a.audience = aud := by
  simp [CatalogIdentity.audience, List.find?_isSome]

theorem Catalog.mem_rendered {c : Catalog} {cluster : String} {id : CatalogIdentity} :
    id ∈ c.rendered cluster ↔ c.lookup cluster id.ns id.serviceAccount = some id ∧
      ∃ aud, (id.audience aud).isSome := by
  simp only [Catalog.rendered, List.mem_filter, Catalog.mem_forCluster,
    CatalogIdentity.audience_isSome]
  refine and_congr_right fun _ => ?_
  cases id.audiences with
  | nil => simp
  | cons a rest => simp

/-- In a valid catalog the roles of a cluster are distinct. -/
theorem ValidCatalog.roles_nodup : ((c.catalog.rendered cluster).map fun id =>
    roleName cluster id.ns id.serviceAccount).Nodup := by
  have hkeys : ((c.catalog.rendered cluster).map fun id => (id.ns, id.serviceAccount)).Nodup :=
    (c.catalog.forCluster_nodup cluster).sublist (List.filter_sublist.map _)
  have hroles := hkeys.map_on (f := fun key => roleName cluster key.1 key.2) ?_
  · rwa [List.map_map] at hroles
  intro x hx y hy hrole
  obtain ⟨a, ha, rfl⟩ := List.mem_map.mp hx
  obtain ⟨b, hb, rfl⟩ := List.mem_map.mp hy
  have hna := (c.lookup_isName (Catalog.mem_rendered.mp ha).1).1
  have hnb := (c.lookup_isName (Catalog.mem_rendered.mp hb).1).1
  obtain ⟨hns, hsa⟩ := roleName_injective hna hnb hrole
  exact Prod.ext hns hsa

theorem ValidCatalog.granted_nodup : (c.catalog.granted cluster).Nodup := by
  refine List.nodup_flatMap.mpr ⟨?_, ?_⟩
  · intro id hid
    obtain ⟨hmem, -, -⟩ := Catalog.lookup_names (Catalog.mem_rendered.mp hid).1
    obtain ⟨_, hchecked⟩ := c.checked hmem
    refine List.Nodup.of_map Prod.snd ?_
    rw [List.map_map]
    exact Catalog.checkIdentity_audiences hchecked
  have hroles := c.roles_nodup cluster
  rw [List.Nodup, List.pairwise_map] at hroles
  refine hroles.imp ?_
  intro a b hne x ha hb
  obtain ⟨_, _, rfl⟩ := List.mem_map.mp ha
  obtain ⟨_, _, heq⟩ := List.mem_map.mp hb
  exact hne (congrArg Prod.fst heq).symm

/-- What is granted is what `lookup` approves. -/
theorem Catalog.mem_granted {c : Catalog} {cluster role aud : String} :
    (role, aud) ∈ c.granted cluster ↔ ∃ ns serviceAccount id,
      role = roleName cluster ns serviceAccount ∧ c.lookup cluster ns serviceAccount = some id ∧
      (id.audience aud).isSome := by
  simp only [Catalog.granted, List.mem_flatMap, List.mem_map, Prod.mk.injEq, Catalog.mem_rendered]
  constructor
  · intro h
    obtain ⟨id, ⟨hlookup, -⟩, a, ha, rfl, rfl⟩ := h
    exact ⟨_, _, id, rfl, hlookup, CatalogIdentity.audience_isSome.mpr ⟨a, ha, rfl⟩⟩
  · intro h
    obtain ⟨ns, serviceAccount, id, rfl, hlookup, haud⟩ := h
    obtain ⟨-, rfl, rfl⟩ := Catalog.lookup_names hlookup
    obtain ⟨a, ha, rfl⟩ := CatalogIdentity.audience_isSome.mp haud
    exact ⟨id, ⟨hlookup, _, haud⟩, a, ha, rfl, rfl⟩

theorem Catalog.mem_roleWrites {c : Catalog} {cluster : String} {w : RoleWrite} :
    w ∈ c.roleWrites cluster ↔ ∃ ns serviceAccount id,
      c.lookup cluster ns serviceAccount = some id ∧ (∃ aud, (id.audience aud).isSome) ∧
      w = ⟨roleName cluster ns serviceAccount, c.subjectPath cluster ns serviceAccount,
        id.ttlSecs⟩ := by
  simp only [Catalog.roleWrites, List.mem_map, Catalog.mem_rendered]
  constructor
  · intro h
    obtain ⟨id, ⟨hlookup, haud⟩, rfl⟩ := h
    exact ⟨_, _, id, hlookup, haud, rfl⟩
  · intro h
    obtain ⟨ns, serviceAccount, id, hlookup, haud, rfl⟩ := h
    obtain ⟨-, rfl, rfl⟩ := Catalog.lookup_names hlookup
    exact ⟨id, ⟨hlookup, haud⟩, rfl⟩

end

/-! ## 3. Reading the text -/

/-- The policy with this text grants minting under the role, for the audience. -/
def PolicyGrants (mount text role aud : String) : Prop := ∃ auds, aud ∈ auds ∧
    (mintLines mount role auds).map String.toList <:+: splitChar '\n' text.toList

/-- The commands of this text create the role; a role is one word. -/
def RoleCreated (mount text : String) (w : RoleWrite) : Prop :=
  ' ' ∉ w.role.toList ∧ (roleLine mount w.role w.path w.ttl).toList ∈ splitChar '\n' text.toList

theorem mintPath_inj {mount role role' : String}
    (h : (mintPath mount role).toList = (mintPath mount role').toList) : role = role' := by
  simp only [mintPath, String.toList_append, List.append_assoc] at h
  have hrest := List.append_cancel_left (List.append_cancel_left (List.append_cancel_left h))
  exact String.ext (List.append_cancel_right hrest)

theorem mintParameters_inj {auds auds' : List String} (hne : auds ≠ []) (hne' : auds' ≠ [])
    (h : (mintParameters auds).toList = (mintParameters auds').toList) : auds = auds' := by
  -- said of any three texts, so that no literal is taken apart
  have hparts : ∀ a b c : String, (a ++ b ++ c).toList = a.toList ++ (b.toList ++ c.toList) := by
    simp
  have hlist := List.append_cancel_left ((hparts _ _ _).symm.trans (h.trans (hparts _ _ _)))
  have hwords : ∀ list : List String, (", ".intercalate (list.map debugStr)).toList =
      [',', ' '].intercalate ((list.map String.toList).map debugEscaping.quoted) := by
    intro list
    have hsep : ", ".toList = [',', ' '] := by decide
    have hmap : (list.map debugStr).map String.toList =
        (list.map String.toList).map debugEscaping.quoted := by
      rw [List.map_map, List.map_map]
      exact List.map_congr_left fun s _ => toList_debugStr s
    rw [String.toList_intercalate, hsep, hmap]
  have hend : "] \x7d".toList = ']' :: [' ', '\x7d'] := by decide
  rw [hwords, hwords, hend] at hlist
  have hmap := (debugEscaping.quoted_prefixCode.intercalate_inj (show ',' ≠ ']' by decide)
    (by simpa using hne) (by simpa using hne') hlist).1
  exact List.map_injective_iff.mpr (fun _ _ heq => String.toList_injective heq) hmap

theorem roleLine_inj {mount role role' path path' : String} {ttl ttl' : Nat}
    (hword : ' ' ∉ role.toList) (hword' : ' ' ∉ role'.toList)
    (h : (roleLine mount role path ttl).toList = (roleLine mount role' path' ttl').toList) :
    role = role' ∧ path = path' ∧ ttl = ttl' := by
  have hparts : ∀ a m b r t p u n v : String, (a ++ m ++ b ++ r ++ t ++ p ++ u ++ n ++ v).toList =
      a.toList ++ (m.toList ++ (b.toList ++ (r.toList ++ (t.toList ++ (p.toList ++ (u.toList ++
        (n.toList ++ v.toList))))))) := by
    simp
  have htemplate : " template='\x7b\"sub\":".toList = ' ' :: "template='\x7b\"sub\":".toList := by
    decide
  have hseconds : "s use_jti_claim=true".toList = 's' :: " use_jti_claim=true".toList := by
    decide
  replace h := (hparts _ _ _ _ _ _ _ _ _).symm.trans (h.trans (hparts _ _ _ _ _ _ _ _ _))
  rw [htemplate, hseconds, List.cons_append, List.cons_append] at h
  have hrole := List.append_cancel_left (List.append_cancel_left (List.append_cancel_left h))
  obtain ⟨hrole, hrest⟩ := append_inj_of_not_mem hword hword' hrole
  have hpath := List.append_cancel_left hrest
  rw [toList_jsonStr, toList_jsonStr] at hpath
  obtain ⟨hpath, hrest⟩ := jsonEscaping.quoted_prefixCode _ _ _ _ hpath
  have hdigits : ∀ n : Nat, 's' ∉ (toString n).toList := by
    intro n hmem
    have hlist : (toString n).toList = Nat.toDigits 10 n := by simp
    rw [hlist] at hmem
    exact absurd (Nat.isDigit_of_mem_toDigits (by decide) (by decide) hmem) (by decide)
  obtain ⟨httl, -⟩ := append_inj_of_not_mem (hdigits ttl) (hdigits ttl')
    (List.append_cancel_left hrest)
  have hnumber := congrArg (Nat.ofDigitChars 10 · 0) httl
  exact ⟨String.ext hrole, String.ext hpath, by simpa using hnumber⟩

/-- Where four lines can stand in a list of blocks, if the first is no other line of a block. -/
theorem infix_blocks_iff {α β : Type} {path caps close blank : α} (params : α) (pathOf paramsOf : β → α)
    (hblank : path ≠ blank) (hcaps : path ≠ caps) (hclose : path ≠ close)
    (hparams : ∀ b, path ≠ paramsOf b) (blocks : List β) :
    [path, caps, params, close] <:+:
        blocks.flatMap (fun b => [blank, pathOf b, caps, paramsOf b, close]) ++ [blank] ↔
      ∃ b ∈ blocks, path = pathOf b ∧ params = paramsOf b := by
  induction blocks with
  | nil => simp [List.infix_cons_iff, hblank]
  | cons b rest ih =>
    simp only [List.flatMap_cons, List.cons_append, List.nil_append, List.infix_cons_iff,
      List.cons_prefix_cons, hblank, hcaps, hclose, hparams, false_and, false_or, ih,
      List.exists_mem_cons_iff, true_and, List.nil_prefix, and_true]

theorem infix_cons_of_ne {α : Type} {first x : α} {more list : List α} (h : first ≠ x) :
    first :: more <:+: x :: list ↔ first :: more <:+: list := by
  simp [List.infix_cons_iff, List.cons_prefix_cons, h]

/-- The text begins with the character. -/
def Begins (c : Char) (s : String) : Prop := ∃ rest, s.toList = c :: rest

theorem Begins.append {c : Char} {a : String} (h : Begins c a) (b : String) : Begins c (a ++ b) := by
  obtain ⟨rest, hrest⟩ := h
  exact ⟨rest ++ b.toList, by rw [String.toList_append, hrest]; rfl⟩

theorem Begins.ne {c d : Char} {a b : String} (ha : Begins c a) (hb : Begins d b) (h : c ≠ d) :
    a.toList ≠ b.toList := by
  obtain ⟨_, hrest⟩ := ha
  obtain ⟨_, hrest'⟩ := hb
  rw [hrest, hrest']
  intro heq
  exact h (List.cons.inj heq).1

theorem mintPath_begins (mount role : String) : Begins 'p' (mintPath mount role) :=
  (((Begins.append ⟨"ath \"".toList, by decide⟩ mount).append _).append role).append _

theorem mintParameters_begins (auds : List String) : Begins ' ' (mintParameters auds) :=
  (Begins.append ⟨" allowed_parameters = \x7b \"audience\" = [".toList, by decide⟩ _).append _

theorem capabilities_begins : Begins ' ' "  capabilities       = [\"update\"]" :=
  ⟨" capabilities       = [\"update\"]".toList, by decide⟩

/-- The lines of a grant stand in the policy only where a grant was written. -/
theorem mintLines_infix_iff (mount role : String) (auds : List String)
    (blocks : List (String × List String)) :
    (mintLines mount role auds).map String.toList <:+:
        (blocks.flatMap fun b => "" :: mintLines mount b.1 b.2).map String.toList ++ [[]] ↔
      ∃ b ∈ blocks, role = b.1 ∧ (mintParameters auds).toList = (mintParameters b.2).toList := by
  have hpath := mintPath_begins mount role
  have hblank : (mintPath mount role).toList ≠ [] := by
    obtain ⟨_, hrest⟩ := hpath
    simp [hrest]
  have hblocks := infix_blocks_iff (mintParameters auds).toList
    (fun b : String × List String => (mintPath mount b.1).toList)
    (fun b => (mintParameters b.2).toList) hblank (hpath.ne capabilities_begins (by decide))
    (hpath.ne ⟨[], rfl⟩ (by decide) : _ ≠ "\x7d".toList)
    (fun b => hpath.ne (mintParameters_begins b.2) (by decide)) blocks
  rw [List.map_flatMap]
  refine hblocks.trans (exists_congr fun b => and_congr_right fun _ => and_congr_left fun _ => ?_)
  exact ⟨mintPath_inj, fun h => by rw [h]⟩

/-- A line that ends otherwise than the first line of a grant. -/
theorem mintPath_ne_sign (mount role a : String) :
    (mintPath mount role).toList ≠ (a ++ "\" \x7b capabilities = [\"update\"] \x7d").toList := by
  have hopen : "/mintjwt\" \x7b".toList = "/mintjwt\" ".toList ++ ['\x7b'] := by decide
  have hclose : "\" \x7b capabilities = [\"update\"] \x7d".toList =
      "\" \x7b capabilities = [\"update\"] ".toList ++ ['\x7d'] := by decide
  have hparts : ∀ a b : String, (a ++ b).toList = a.toList ++ b.toList := by simp
  intro h
  replace h := (hparts _ _).symm.trans (h.trans (hparts _ _))
  rw [hopen, hclose, ← List.append_assoc, ← List.append_assoc] at h
  exact absurd (List.append_inj_right' h rfl) (by decide)

theorem newline_not_mem_trimMatches {s : String} {c : Char} (h : '\n' ∉ s.toList) :
    '\n' ∉ (trimMatches c s).toList := by
  intro hmem
  rw [trimMatches, String.toList_ofList, List.mem_reverse] at hmem
  have hdropped := List.mem_reverse.mp ((List.dropWhile_sublist _).subset hmem)
  exact h ((List.dropWhile_sublist _).subset hdropped)

section

theorem not_mem_append {x : Char} {a b : String} (ha : x ∉ a.toList) (hb : x ∉ b.toList) :
    x ∉ (a ++ b).toList := by
  rw [String.toList_append, List.mem_append, not_or]
  exact ⟨ha, hb⟩

theorem newline_intercalate {sep : String} {list : List String} (hsep : '\n' ∉ sep.toList)
    (h : ∀ s ∈ list, '\n' ∉ s.toList) : '\n' ∉ (sep.intercalate list).toList := by
  rw [String.toList_intercalate]
  induction list with
  | nil => simp
  | cons first rest ih =>
    obtain ⟨hfirst, hrest⟩ := List.forall_mem_cons.mp h
    cases rest with
    | nil => simpa using hfirst
    | cons second rest =>
      rw [List.map_cons, List.map_cons, List.intercalate_cons_cons, ← List.map_cons]
      simp only [List.mem_append, not_or]
      exact ⟨⟨hfirst, hsep⟩, ih hrest⟩

/-- A character that no name has, other than the underscore, is in no role. -/
theorem not_mem_roleName {x : Char} (hx : isNameChar x = false) (hunder : x ∉ "__".toList)
    {cluster ns serviceAccount : String} (hcluster : isName cluster = true)
    (hns : isName ns = true) (hsa : isName serviceAccount = true) :
    x ∉ (roleName cluster ns serviceAccount).toList :=
  not_mem_append (not_mem_append (not_mem_append (not_mem_append (not_mem_of_isName hcluster hx)
    hunder) (not_mem_of_isName hns hx)) hunder) (not_mem_of_isName hsa hx)

theorem newline_mintLines {mount role : String} {auds : List String} (hmount : '\n' ∉ mount.toList)
    (hrole : '\n' ∉ role.toList) : ∀ line ∈ mintLines mount role auds, '\n' ∉ line.toList := by
  have hauds : '\n' ∉ (", ".intercalate (auds.map debugStr)).toList := by
    refine newline_intercalate (by decide) ?_
    intro s hs
    obtain ⟨aud, -, rfl⟩ := List.mem_map.mp hs
    exact newline_not_mem_debugStr aud
  intro line hline
  simp only [mintLines, List.mem_cons, List.not_mem_nil, or_false] at hline
  obtain rfl | rfl | rfl | rfl := hline
  · exact not_mem_append (not_mem_append (not_mem_append (not_mem_append (by decide) hmount)
      (by decide)) hrole) (by decide)
  · decide
  · exact not_mem_append (not_mem_append (by decide) hauds) (by decide)
  · decide

theorem newline_roleLine {mount role path : String} {ttl : Nat} (hmount : '\n' ∉ mount.toList)
    (hrole : '\n' ∉ role.toList) : '\n' ∉ (roleLine mount role path ttl).toList := by
  have hdigits : '\n' ∉ (toString ttl).toList := by
    intro hmem
    have hlist : (toString ttl).toList = Nat.toDigits 10 ttl := by simp
    rw [hlist] at hmem
    exact absurd (Nat.isDigit_of_mem_toDigits (by decide) (by decide) hmem) (by decide)
  refine not_mem_append (not_mem_append (not_mem_append (not_mem_append (not_mem_append
    (not_mem_append (not_mem_append (not_mem_append ?_ hmount) ?_) hrole) ?_)
    (newline_not_mem_jsonStr path)) ?_) hdigits) ?_
  all_goals decide

/-- No line of the policy of a cluster with a proper name has a line break. -/
theorem newline_policyLines (c : ValidCatalog) {cluster pkiMount pkiRole mount : String}
    (hcluster : isName cluster = true) (hpki : '\n' ∉ pkiMount.toList)
    (hpkiRole : '\n' ∉ pkiRole.toList) (hmount : '\n' ∉ mount.toList) :
    ∀ line ∈ c.catalog.policyLines cluster pkiMount pkiRole mount, '\n' ∉ line.toList := by
  intro line hline
  obtain hline | hline := List.mem_append.mp hline
  · simp only [List.mem_cons, List.not_mem_nil, or_false] at hline
    obtain rfl | rfl := hline
    · exact not_mem_append (not_mem_append (by decide)
        (not_mem_of_isName hcluster (by decide))) (by decide)
    · exact not_mem_append (not_mem_append (not_mem_append (not_mem_append (by decide)
        (newline_not_mem_trimMatches hpki)) (by decide)) hpkiRole) (by decide)
  obtain ⟨id, hid, hline⟩ := List.mem_flatMap.mp hline
  obtain ⟨hns, hsa⟩ := c.lookup_isName (Catalog.mem_rendered.mp hid).1
  obtain rfl | hline := List.mem_cons.mp hline
  · decide
  · exact newline_mintLines (newline_not_mem_trimMatches hmount)
      (not_mem_roleName (by decide) (by decide) hcluster hns hsa) line hline

end

namespace Catalog

variable {c : Catalog} {cluster pkiMount pkiRole mount role aud : String}

/-- The blocks of the policy. -/
def blocks (c : Catalog) (cluster : String) : List (String × List String) :=
  (c.rendered cluster).map fun id =>
    (roleName cluster id.ns id.serviceAccount, id.audiences.map (·.audience))

theorem mem_granted_blocks :
    (role, aud) ∈ c.granted cluster ↔ ∃ b ∈ c.blocks cluster, role = b.1 ∧ aud ∈ b.2 := by
  simp only [granted, blocks, List.mem_flatMap, List.mem_map, Prod.mk.injEq, exists_exists_and_eq_and]
  refine exists_congr fun id => and_congr_right fun _ => ?_
  constructor
  · intro h
    obtain ⟨a, ha, hrole, haud⟩ := h
    exact ⟨hrole.symm, a, ha, haud⟩
  · intro h
    obtain ⟨hrole, a, ha, haud⟩ := h
    exact ⟨a, ha, hrole.symm, haud⟩

/-- A text that has the lines of the policy grants what the policy grants. -/
theorem policyGrants_iff {text : String} (htext : splitChar '\n' text.toList =
      (c.policyLines cluster pkiMount pkiRole mount).map String.toList ++ [[]]) :
    PolicyGrants (trimMatches '/' mount) text role aud ↔ (role, aud) ∈ c.granted cluster := by
  have hhead : (mintPath (trimMatches '/' mount) role).toList ≠
      ("# svidlet-broker-" ++ cluster ++ " — generated from the catalog; do not edit").toList :=
    (mintPath_begins _ role).ne
      ((Begins.append ⟨" svidlet-broker-".toList, by decide⟩ cluster).append _)
      (show 'p' ≠ '#' by decide)
  have hsign := mintPath_ne_sign (trimMatches '/' mount) role
    ("path \"" ++ trimMatches '/' pkiMount ++ "/sign/" ++ pkiRole)
  have hblocks : ∀ auds, (mintLines (trimMatches '/' mount) role auds).map String.toList <:+:
      splitChar '\n' text.toList ↔ ∃ b ∈ c.blocks cluster, role = b.1 ∧
        (mintParameters auds).toList = (mintParameters b.2).toList := by
    intro auds
    have hrest := mintLines_infix_iff (trimMatches '/' mount) role auds (c.blocks cluster)
    rw [blocks, List.flatMap_map] at hrest
    rw [htext, policyLines]
    exact (infix_cons_of_ne hhead).trans ((infix_cons_of_ne hsign).trans hrest)
  rw [mem_granted_blocks]
  constructor
  · intro h
    obtain ⟨auds, haud, hinfix⟩ := h
    obtain ⟨b, hb, hrole, hparams⟩ := (hblocks auds).mp hinfix
    have hne : b.2 ≠ [] := by
      obtain ⟨id, hid, rfl⟩ := List.mem_map.mp hb
      obtain ⟨aud', haud'⟩ := (mem_rendered.mp hid).2
      obtain ⟨a, ha, -⟩ := CatalogIdentity.audience_isSome.mp haud'
      exact List.ne_nil_of_mem (List.mem_map.mpr ⟨a, ha, rfl⟩)
    obtain rfl := mintParameters_inj (List.ne_nil_of_mem haud) hne hparams
    exact ⟨b, hb, hrole, haud⟩
  · intro h
    obtain ⟨b, hb, hrole, haud⟩ := h
    exact ⟨b.2, haud, (hblocks b.2).mpr ⟨b, hb, hrole, rfl⟩⟩

theorem roleCreated_iff {text : String}
    (htext : splitChar '\n' text.toList = ((c.roleWrites cluster).map fun w =>
      roleLine (trimMatches '/' mount) w.role w.path w.ttl).map String.toList ++ [[]])
    (hwords : ∀ w ∈ c.roleWrites cluster, ' ' ∉ w.role.toList) {w : RoleWrite} :
    RoleCreated (trimMatches '/' mount) text w ↔ w ∈ c.roleWrites cluster := by
  rw [RoleCreated, htext, List.map_map, List.mem_append, List.mem_map]
  constructor
  · intro h
    obtain ⟨hword, ⟨v, hv, heq⟩ | hnil⟩ := h
    · obtain ⟨hrole, hpath, httl⟩ := roleLine_inj (hwords v hv) hword heq
      obtain rfl : v = w := by
        cases v
        cases w
        simp_all
      exact hv
    have hbegins : Begins 'v' (roleLine (trimMatches '/' mount) w.role w.path w.ttl) :=
      ((((((((Begins.append ⟨"ault write ".toList, by decide⟩ _).append _).append _).append
        _).append _).append _).append _).append _)
    obtain ⟨_, hrest⟩ := hbegins
    rw [hrest] at hnil
    simp at hnil
  · intro hw
    exact ⟨hwords w hw, .inl ⟨w, hw, rfl⟩⟩

end Catalog

/-! ## 4. The theorem -/

/-- **The policy and the roles of a cluster agree with `lookup`**, for every valid catalog; the last
    part is about the texts. -/
theorem policy_grants_what_lookup_approves (c : ValidCatalog) (cluster : String) :
    (c.catalog.granted cluster).Nodup ∧
    (∀ role aud, (role, aud) ∈ c.catalog.granted cluster ↔ ∃ ns serviceAccount id,
      role = roleName cluster ns serviceAccount ∧
      c.catalog.lookup cluster ns serviceAccount = some id ∧ (id.audience aud).isSome) ∧
    ((c.catalog.roleWrites cluster).map RoleWrite.role).Nodup ∧
    (∀ w, w ∈ c.catalog.roleWrites cluster ↔ ∃ ns serviceAccount id,
      c.catalog.lookup cluster ns serviceAccount = some id ∧ (∃ aud, (id.audience aud).isSome) ∧
      w = ⟨roleName cluster ns serviceAccount, c.catalog.subjectPath cluster ns serviceAccount,
        id.ttlSecs⟩) ∧
    (∀ role, (∃ w ∈ c.catalog.roleWrites cluster, w.role = role) ↔
      ∃ aud, (role, aud) ∈ c.catalog.granted cluster) ∧
    (isName cluster = true → ∀ pkiMount pkiRole mount : String, '\n' ∉ pkiMount.toList →
      '\n' ∉ pkiRole.toList → '\n' ∉ mount.toList →
      (∀ role aud, PolicyGrants (trimMatches '/' mount)
        (c.catalog.renderPolicy cluster pkiMount pkiRole mount) role aud ↔
          (role, aud) ∈ c.catalog.granted cluster) ∧
      ∀ w, RoleCreated (trimMatches '/' mount) (c.catalog.renderRoles cluster mount) w ↔
        w ∈ c.catalog.roleWrites cluster) := by
  refine ⟨c.granted_nodup cluster, fun _ _ => Catalog.mem_granted, ?_,
    fun _ => Catalog.mem_roleWrites, ?_, ?_⟩
  · rw [Catalog.roleWrites, List.map_map]
    exact c.roles_nodup cluster
  · intro role
    constructor
    · intro h
      obtain ⟨w, hw, rfl⟩ := h
      obtain ⟨ns, serviceAccount, id, hlookup, ⟨aud, haud⟩, rfl⟩ := Catalog.mem_roleWrites.mp hw
      exact ⟨aud, Catalog.mem_granted.mpr ⟨ns, serviceAccount, id, rfl, hlookup, haud⟩⟩
    · intro h
      obtain ⟨aud, h⟩ := h
      obtain ⟨ns, serviceAccount, id, rfl, hlookup, haud⟩ := Catalog.mem_granted.mp h
      exact ⟨_, Catalog.mem_roleWrites.mpr ⟨ns, serviceAccount, id, hlookup, ⟨aud, haud⟩, rfl⟩, rfl⟩
  · intro hcluster pkiMount pkiRole mount hpki hpkiRole hmount
    have hroles : ∀ {x : Char}, isNameChar x = false → x ∉ "__".toList →
        ∀ w ∈ c.catalog.roleWrites cluster, x ∉ w.role.toList := by
      intro x hx hunder w hw
      obtain ⟨ns, serviceAccount, id, hlookup, -, rfl⟩ := Catalog.mem_roleWrites.mp hw
      obtain ⟨hns, hsa⟩ := c.lookup_isName hlookup
      exact not_mem_roleName hx hunder hcluster hns hsa
    constructor
    · intro role aud
      exact Catalog.policyGrants_iff
        (splitChar_writeLines (newline_policyLines c hcluster hpki hpkiRole hmount))
    · intro w
      refine Catalog.roleCreated_iff ?_ (hroles (by decide) (by decide))
      rw [← splitChar_writeLines, Catalog.roleWrites, List.map_map]
      · rfl
      intro line hline
      obtain ⟨w, hw, rfl⟩ := List.mem_map.mp hline
      exact newline_roleLine (newline_not_mem_trimMatches hmount)
        (hroles (by decide) (by decide) w hw)

/-- An entry for one cluster, behind one for all. -/
def shadowCatalog : Catalog where
  schema := 1
  trustDomain := "t"
  pathTemplate := "/\x7bcluster\x7d/\x7bnamespace\x7d/\x7bservice_account\x7d"
  allowlist := false
  identity := [⟨"*", "n", "s", none, false, [⟨"a", "x"⟩]⟩, ⟨"c", "n", "s", some "6h", false, [⟨"a", "y"⟩]⟩]
  registries := []

theorem shadowCatalog_valid : shadowCatalog.validate = .ok () := by decide

theorem policy_grants_what_lookup_approves_shadowed : shadowCatalog.validate = .ok () ∧
    PolicyGrants (trimMatches '/' "/spiffe/") (shadowCatalog.renderPolicy "c" "pki" "r" "/spiffe/")
      "c__n__s" "y" ∧
    RoleCreated (trimMatches '/' "/spiffe/") (shadowCatalog.renderRoles "c" "/spiffe/")
      ⟨"c__n__s", "/c/n/s", 21600⟩ := by
  have hlookup : shadowCatalog.lookup "c" "n" "s" =
      some ⟨"c", "n", "s", some "6h", false, [⟨"a", "y"⟩]⟩ := by decide
  obtain ⟨-, hgranted, -, hwrites, -, htexts⟩ :=
    policy_grants_what_lookup_approves ⟨shadowCatalog, shadowCatalog_valid⟩ "c"
  obtain ⟨hpolicy, hroles⟩ := htexts (by decide) "pki" "r" "/spiffe/" (by decide)
    (by decide) (by decide)
  refine ⟨shadowCatalog_valid, (hpolicy _ _).mpr ((hgranted _ _).mpr ?_),
    (hroles _).mpr ((hwrites _).mpr ?_)⟩
  · exact ⟨"n", "s", _, by decide, hlookup, by decide⟩
  · exact ⟨"n", "s", _, hlookup, ⟨"y", by decide⟩, by decide⟩

end Svidlet.Issue
