import AuthCore.Proofs.Text.Identifiers
import AuthCore.Server.Startup

set_option autoImplicit false

namespace AuthCore.Cache.Url

/-- An address with credentials. -/
def address (scheme user password rest : String) : String :=
  scheme ++ "://" ++ user ++ ":" ++ password ++ "@" ++ rest

def leftover (user password : String) : String :=
  if '@' ∈ user.toList then password
  else
    match beforeLast? ':' password.toList with
    | some lead => String.ofList lead ++ ":****"
    | none => if user = "" then password else "****"

theorem beforeLast?_append {c : Char} (lead : List Char) {tail : List Char} (h : c ∉ tail) :
    beforeLast? c (lead ++ c :: tail) = some lead := by
  have hreversed : (lead ++ c :: tail).reverse = tail.reverse ++ c :: lead.reverse := by simp
  rw [beforeLast?, hreversed, Text.splitOnce_append (by simpa using h)]
  simp

theorem exists_last {c : Char} {cs : List Char} (h : c ∈ cs) :
    ∃ lead tail, cs = lead ++ c :: tail ∧ c ∉ tail := by
  obtain ⟨tail, lead, hcs, htail⟩ := List.eq_append_cons_of_mem (List.mem_reverse.mpr h)
  refine ⟨lead.reverse, tail.reverse, ?_, by simpa using htail⟩
  simpa using congrArg List.reverse hcs

theorem beforeLast?_eq_none {c : Char} {cs : List Char} (h : c ∉ cs) : beforeLast? c cs = none := by
  cases hfound : Text.splitOnce c cs.reverse with
  | none => simp [beforeLast?, hfound]
  | some cut =>
    have hcut := (Text.splitOnce_eq_some_iff.mp hfound).1
    exact absurd (List.mem_reverse.mp (hcut ▸ by simp)) h

theorem byteLength_append (cs ds : List Char) :
    byteLength (cs ++ ds) = byteLength cs + byteLength ds := by
  have hfold (n : Nat) : ds.foldl (fun n c => n + c.utf8Size) n = n + byteLength ds := by
    induction ds generalizing n with
    | nil => rfl
    | cons d ds ih =>
      rw [byteLength, List.foldl_cons, List.foldl_cons, ih, ih (0 + d.utf8Size)]
      omega
  rw [byteLength, List.foldl_append, hfold]
  rfl

theorem byteLength_cons (c : Char) (cs : List Char) :
    byteLength (c :: cs) = c.utf8Size + byteLength cs := by
  have hsize : byteLength [c] = c.utf8Size := Nat.zero_add _
  rw [← List.singleton_append, byteLength_append, hsize]

theorem byteLength_pos {cs : List Char} (h : cs ≠ []) : 0 < byteLength cs := by
  obtain ⟨c, cs, rfl⟩ := List.exists_cons_of_ne_nil h
  have hpos := c.utf8Size_pos
  rw [byteLength_cons]
  omega

theorem schemeEnd_append {scheme : List Char} (h : ':' ∉ scheme) (rest : List Char) :
    schemeEnd (scheme ++ ':' :: '/' :: '/' :: rest) = byteLength scheme + 3 := by
  have hbefore : bytesBefore? [':', '/', '/'] (scheme ++ ':' :: '/' :: '/' :: rest) =
      some (byteLength scheme) := by
    induction scheme with
    | nil => simp [bytesBefore?, byteLength]
    | cons c scheme ih =>
      obtain ⟨hc, htail⟩ := not_or.mp (fun hmem => h (List.mem_cons.mpr hmem))
      rw [List.cons_append, bytesBefore?, ih htail, if_neg (by simp [hc]), Option.map_some,
        byteLength_cons, Nat.add_comm]
  rw [schemeEnd, hbefore]

theorem mask_cut {url : String} {lead tail after : List Char}
    (hurl : url.toList = lead ++ ':' :: (tail ++ '@' :: after)) (htail : ':' ∉ tail)
    (hat : '@' ∉ lead ++ ':' :: tail) :
    mask url = if schemeEnd url.toList < byteLength lead then
      String.ofList (lead ++ ":****@".toList ++ after) else url := by
  have hcut : url.toList = (lead ++ ':' :: tail) ++ '@' :: after := by simp [hurl]
  simp only [mask, hcut, Text.splitOnce_append hat, beforeLast?_append lead htail]

variable {scheme user rest : String}

theorem schemeEnd_address (hscheme : ':' ∉ scheme.toList) (password : String) :
    schemeEnd (address scheme user password rest).toList = byteLength scheme.toList + 3 := by
  rw [← schemeEnd_append hscheme (user.toList ++ ':' :: (password.toList ++ '@' :: rest.toList))]
  congr 1
  simp [address]

/-- An at sign in the user name seems to end the credentials, and the password stands behind it. -/
theorem mask_address_of_at (hscheme : ':' ∉ scheme.toList) (hat : '@' ∉ scheme.toList)
    (huser : '@' ∈ user.toList) (rest : String) : ∃ front : String, ∀ password : String,
      mask (address scheme user password rest) = front ++ password ++ "@" ++ rest := by
  obtain ⟨first, second, hcut, hfirst⟩ := List.eq_append_cons_of_mem huser
  obtain ⟨lead, tail, hlead, htail⟩ : ∃ lead tail,
      scheme.toList ++ "://".toList ++ first = lead ++ ':' :: tail ∧ ':' ∉ tail :=
    exists_last (by simp)
  let behind (password : String) : List Char :=
    second ++ ':' :: (password.toList ++ '@' :: rest.toList)
  have hurl (password : String) : (address scheme user password rest).toList =
      lead ++ ':' :: (tail ++ '@' :: behind password) := by
    have hwhole := congrArg (· ++ '@' :: behind password) hlead
    simpa [address, behind, hcut] using hwhole
  have hbefore : '@' ∉ lead ++ ':' :: tail := by
    rw [← hlead]
    simp [hat, hfirst]
  by_cases hmasked : byteLength scheme.toList + 3 < byteLength lead
  · refine ⟨String.ofList (lead ++ ":****@".toList ++ second) ++ ":", fun password => ?_⟩
    rw [mask_cut (hurl password) htail hbefore, schemeEnd_address hscheme, if_pos hmasked,
      ← String.toList_inj]
    simp [behind]
  · refine ⟨scheme ++ "://" ++ user ++ ":", fun password => ?_⟩
    rw [mask_cut (hurl password) htail hbefore, schemeEnd_address hscheme, if_neg hmasked, address]

theorem mask_address (hscheme : ':' ∉ scheme.toList) (hat : '@' ∉ scheme.toList)
    (huser : '@' ∉ user.toList) (rest : String) {password : String}
    (hpassword : '@' ∉ password.toList) : mask (address scheme user password rest) =
      scheme ++ "://" ++ user ++ ":" ++ leftover user password ++ "@" ++ rest := by
  have hmark : byteLength "://".toList = 3 := by decide
  rw [leftover, if_neg huser]
  by_cases hcolon : ':' ∈ password.toList
  · obtain ⟨lead, tail, hcut, htail⟩ := exists_last hcolon
    rw [hcut, List.mem_append, List.mem_cons, not_or, not_or] at hpassword
    obtain ⟨hlead, -, htailAt⟩ := hpassword
    have hurl : (address scheme user password rest).toList = (scheme.toList ++ "://".toList ++
        user.toList ++ ":".toList ++ lead) ++ ':' :: (tail ++ '@' :: rest.toList) := by
      simp [address, hcut]
    have hlong : byteLength scheme.toList + 3 <
        byteLength (scheme.toList ++ "://".toList ++ user.toList ++ ":".toList ++ lead) := by
      have hcolonMark : byteLength ":".toList = 1 := by decide
      simp only [byteLength_append, hmark, hcolonMark]
      omega
    rw [mask_cut hurl htail (by simp [hat, huser, hlead, htailAt]), schemeEnd_address hscheme,
      if_pos hlong, hcut, beforeLast?_append lead htail, ← String.toList_inj]
    simp
  · have hurl : (address scheme user password rest).toList = (scheme.toList ++ "://".toList ++
        user.toList) ++ ':' :: (password.toList ++ '@' :: rest.toList) := by
      simp [address]
    rw [mask_cut hurl hcolon (by simp [hat, huser, hpassword]), schemeEnd_address hscheme,
      beforeLast?_eq_none hcolon]
    by_cases hempty : user = ""
    · -- The colon stands right behind the scheme, where the mask takes it for one of the scheme.
      have hnone : byteLength user.toList = 0 := by rw [hempty]; rfl
      rw [if_pos hempty, if_neg (by simp only [byteLength_append, hmark, hnone]; omega), address]
    · have hpos := byteLength_pos (show user.toList ≠ [] by simpa using hempty)
      rw [if_neg hempty, if_pos (by simp only [byteLength_append, hmark]; omega),
        ← String.toList_inj]
      simp

theorem leftover_of_at (huser : '@' ∈ user.toList) (password : String) :
    leftover user password = password := if_pos huser

theorem exists_front (hscheme : ':' ∉ scheme.toList) (hat : '@' ∉ scheme.toList)
    (user rest : String) : ∃ front : String, ∀ password : String, '@' ∉ password.toList →
      mask (address scheme user password rest) =
        front ++ leftover user password ++ "@" ++ rest := by
  by_cases huser : '@' ∈ user.toList
  · obtain ⟨front, hmask⟩ := mask_address_of_at hscheme hat huser rest
    exact ⟨front, fun password _ => by rw [hmask, leftover_of_at huser]⟩
  · exact ⟨_, fun _ => mask_address hscheme hat huser rest⟩

/-- A password is hidden as a whole behind a user name, if neither holds a mark of the mask. -/
theorem leftover_eq_stars_iff {password : String} : leftover user password = "****" ↔
    password = "****" ∨ user ≠ "" ∧ '@' ∉ user.toList ∧ ':' ∉ password.toList := by
  by_cases huser : '@' ∈ user.toList
  · simp [leftover_of_at huser, huser]
  by_cases hcolon : ':' ∈ password.toList
  · obtain ⟨lead, tail, hcut, htail⟩ := exists_last hcolon
    have hlong : String.ofList lead ++ ":****" ≠ "****" := by
      intro heq
      have hlength := congrArg String.length heq
      have hmark : ":****".length = 5 := by decide
      have hstars : "****".length = 4 := by decide
      rw [String.length_append, hmark, hstars] at hlength
      omega
    have hstars : password ≠ "****" := by
      rintro rfl
      exact absurd hcolon (by decide)
    simp [leftover, huser, hcut, beforeLast?_append lead htail, hlong, hstars]
  · rw [leftover, if_neg huser, beforeLast?_eq_none hcolon]
    by_cases hempty : user = "" <;> simp [huser, hcolon, hempty]

def addressed (c : Config.Cache) (url : String) : Config.Cache :=
  { c with redis := { c.redis with url := url } }

theorem lines_addressed {c : Config.Cache} (hprovider : c.provider = "redis") (url : String) :
    (Server.openingEvents (addressed c url)).map Server.Event.line =
      [Server.Event.remoteCacheChosen.line, (Server.Event.connecting (mask url)).line] := by
  simp [Server.openingEvents, addressed, hprovider, Provider.ofName]

/-- Two passwords give the same masked address, and the same log lines, exactly if the mask leaves
the same of both. Nothing is left of a password that holds no colon behind a user name without an at
sign; of every other password something is, unless it looks like a hidden one. -/
theorem masked_eq_iff_leftover_eq (hscheme : ':' ∉ scheme.toList) (hat : '@' ∉ scheme.toList)
    (user rest : String) {p q : String} (hp : '@' ∉ p.toList) (hq : '@' ∉ q.toList) :
    (mask (address scheme user p rest) = mask (address scheme user q rest) ↔
      leftover user p = leftover user q) ∧
    (∀ c : Config.Cache, c.provider = "redis" →
      ((Server.openingEvents (addressed c (address scheme user p rest))).map Server.Event.line =
        (Server.openingEvents (addressed c (address scheme user q rest))).map Server.Event.line ↔
        leftover user p = leftover user q)) ∧
    ('@' ∉ user.toList → mask (address scheme user p rest) =
      scheme ++ "://" ++ user ++ ":" ++ leftover user p ++ "@" ++ rest) ∧
    (leftover user p = "****" ↔
      p = "****" ∨ user ≠ "" ∧ '@' ∉ user.toList ∧ ':' ∉ p.toList) := by
  obtain ⟨front, hmask⟩ := exists_front hscheme hat user rest
  have hsame : mask (address scheme user p rest) = mask (address scheme user q rest) ↔
      leftover user p = leftover user q := by
    rw [hmask p hp, hmask q hq]
    simp [← String.toList_inj]
  refine ⟨hsame, fun c hprovider => ?_, fun huser => mask_address hscheme hat huser rest hp,
    leftover_eq_stars_iff⟩
  rw [lines_addressed hprovider, lines_addressed hprovider, ← hsame]
  simp [Server.Event.line, Json.Value.text]

/-- Without a user name the mask changes nothing, and shows the password. -/
theorem masked_eq_iff_leftover_eq_noUser :
    mask (address "redis" "" "hunter2" "cache:6379") ≠
        mask (address "redis" "" "pa:ss" "cache:6379") ∧
      mask (address "redis" "" "hunter2" "cache:6379") = "redis://:hunter2@cache:6379" := by
  obtain ⟨hsame, _, hwhole, _⟩ := masked_eq_iff_leftover_eq
    (show ':' ∉ "redis".toList by decide) (by decide) "" "cache:6379" (p := "hunter2")
    (q := "pa:ss") (by decide) (by decide)
  exact ⟨fun heq => absurd (hsame.mp heq) (by decide), (hwhole (by decide)).trans (by decide)⟩

end AuthCore.Cache.Url
