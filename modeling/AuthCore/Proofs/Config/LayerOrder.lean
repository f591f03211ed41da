import AuthCore.Proofs.Config.LayerTree
import AuthCore.Proofs.Config.TomlTables
import AuthCore.Proofs.Text.Utf8RoundTrip
import Mathlib

set_option autoImplicit false

namespace AuthCore.Config

section FileText

open Text.Utf8 (decodeLossy encode encodeChars scan scan_encodeChars)

theorem decodeLossy_encodeChars (cs : List Char) :
    decodeLossy (encodeChars cs) = String.ofList cs := by
  rw [decodeLossy, scan_encodeChars, List.map_map]
  exact congrArg String.ofList (List.map_id cs)

theorem eq_mark_of_isPrefixOf {c : Char} {cs : List Char}
    (h : [0xEF, 0xBB, 0xBF].isPrefixOf (encodeChars (c :: cs))) : c = Char.ofNat 0xFEFF := by
  obtain ⟨rest, hrest⟩ := List.isPrefixOf_iff_prefix.mp h
  have hscan : scan (encodeChars (c :: cs)) = some (Char.ofNat 0xFEFF) :: scan rest := by
    rw [← hrest]
    rfl
  rw [scan_encodeChars, List.map_cons] at hscan
  exact Option.some.inj (List.cons.inj hscan).1

theorem fileText_encode (text : String) :
    fileText (encode text) = String.ofList (Toml.unmarked text.toList) := by
  rw [fileText, encode]
  cases htext : text.toList with
  | nil => rfl
  | cons c cs =>
    by_cases hmark : c = Char.ofNat 0xFEFF
    · have hbytes : encodeChars (c :: cs) = [0xEF, 0xBB, 0xBF] ++ encodeChars cs := by
        rw [hmark]
        rfl
      rw [hbytes, if_pos (by rw [List.isPrefixOf_iff_prefix]; exact List.prefix_append _ _),
        List.drop_left' (by rfl), decodeLossy_encodeChars, Toml.unmarked, if_pos hmark]
    · rw [if_neg fun h => hmark (eq_mark_of_isPrefixOf h), decodeLossy_encodeChars, Toml.unmarked,
        if_neg hmark]

theorem Toml.lines?_mark (fuel : Nat) (doc : Entries) (current : Current) (cs : List Char) :
    lines? fuel doc current (Char.ofNat 0xFEFF :: cs) = none := by
  cases fuel with
  | zero => rfl
  | succ fuel =>
    have hskip : skipLines (cs.length + 1) (Char.ofNat 0xFEFF :: cs) =
        Char.ofNat 0xFEFF :: cs := rfl
    rw [lines?, List.length_cons, hskip]
    rfl

/-- One mark is dropped from a document; where that gives a document, there is no second one. -/
theorem Toml.read?_unmarked {text : String} (h : (Toml.read? text).isSome) :
    Toml.read? (String.ofList (Toml.unmarked text.toList)) = Toml.read? text := by
  have hunmarked : unmarked (unmarked text.toList) = unmarked text.toList := by
    -- A second mark would stand where no line can begin.
    rw [read?, Option.isSome_map] at h
    cases hrest : unmarked text.toList with
    | nil => rfl
    | cons c cs =>
      rw [unmarked, if_neg]
      rintro rfl
      rw [hrest, lines?_mark] at h
      cases h
  rw [read?, String.toList_ofList, hunmarked, read?]

end FileText

namespace Environment

variable {environment : List (String × Bytes)}

def setting? (environment : List (String × Bytes)) (name : String) : Option Raw :=
  environment.findSome? fun e =>
    if name? e.1 = some name then (Text.Utf8.decode? e.2).map value else none

theorem layer?_cons_none {e : String × Bytes} (h : name? e.1 = none) :
    layer? (e :: environment) = layer? environment := by
  rw [layer?, List.filterMap_cons_none (by rw [h]; rfl), layer?]

theorem layer?_cons_some {e : String × Bytes} {name : String} (h : name? e.1 = some name) :
    layer? (e :: environment) = (Text.Utf8.decode? e.2).bind fun s =>
      (layer? environment).map fun layer => (name, value s) :: layer := by
  rw [layer?, List.filterMap_cons_some (by rw [h]; rfl), List.mapM_cons, ← layer?]
  cases Text.Utf8.decode? e.2 with
  | none => rfl
  | some s => cases layer? environment <;> rfl

theorem layer?_filter (environment : List (String × Bytes)) :
    layer? (environment.filter fun e => (name? e.1).isSome) = layer? environment := by
  induction environment with
  | nil => rfl
  | cons e environment ih =>
    cases h : name? e.1 with
    | none => rw [List.filter_cons_of_neg (by simp [h]), layer?_cons_none h, ih]
    | some name =>
      rw [List.filter_cons_of_pos (by simp [h]), layer?_cons_some h, layer?_cons_some h, ih]

theorem exists_layer? (h : ∀ e ∈ environment, (name? e.1).isSome → (Text.Utf8.decode? e.2).isSome) :
    ∃ layer, layer? environment = some layer ∧
      layer.map Prod.fst = environment.filterMap (fun e => name? e.1) ∧
      ∀ name, layer.lookup name = setting? environment name := by
  induction environment with
  | nil => exact ⟨[], rfl, rfl, fun _ => rfl⟩
  | cons e environment ih =>
    obtain ⟨layer, hlayer, hnames, hlookup⟩ := ih fun e' he' => h e' (List.mem_cons_of_mem e he')
    cases hname : name? e.1 with
    | none =>
      refine ⟨layer, (layer?_cons_none hname).trans hlayer, ?_, fun name => ?_⟩
      · rw [hnames, List.filterMap_cons_none (by exact hname)]
      · rw [setting?, List.findSome?_cons, hname, if_neg nofun, hlookup name]
        rfl
    | some first =>
      obtain ⟨s, hs⟩ := Option.isSome_iff_exists.mp
        (h e List.mem_cons_self (by rw [hname]; rfl))
      refine ⟨(first, value s) :: layer, ?_, ?_, fun name => ?_⟩
      · rw [layer?_cons_some hname, hs, hlayer]
        rfl
      · rw [List.map_cons, hnames, List.filterMap_cons_some (by exact hname)]
      · rw [setting?, List.findSome?_cons, hname, lookup_cons_eq_ite, hlookup name]
        by_cases hfirst : name = first
        · rw [if_pos hfirst, if_pos (congrArg some hfirst.symm), hs]
          rfl
        · rw [if_neg hfirst, if_neg fun heq => hfirst (Option.some.inj heq).symm]
          rfl

/-- The settings in the environment are texts, each for a field of its own. -/
structure NamesFields (environment : List (String × Bytes)) : Prop where
  text : ∀ e ∈ environment, (name? e.1).isSome → (Text.Utf8.decode? e.2).isSome
  field : ∀ e ∈ environment, ∀ name, name? e.1 = some name → ∃ f : Field, name = f.name
  distinct : (environment.filterMap fun e => name? e.1).Nodup

end Environment

def chosen (base own : List (String × Raw)) (environment : List (String × Bytes)) (f : Field) :
    Option Raw :=
  (Environment.setting? environment f.name).or
    (((Raw.table own).at? f.path).or ((Raw.table base).at? f.path))

def Settings.ofFields (v : ∀ f : Field, f.shape.Value) : Settings where
  cache := {
    provider := v .provider
    defaultTtlSeconds := v .defaultTtlSeconds
    operationTimeoutMs := v .operationTimeoutMs
    redis := {
      url := v .url, keyPrefix := v .remoteKeyPrefix, scanBatchSize := v .scanBatchSize }
    memory := { maxCapacity := v .maxCapacity } }
  password := { secretEnv := v .secretEnv, maxConcurrentHashes := v .maxConcurrentHashes }
  signing := {
    keyDir := v .keyDir
    passphraseEnv := v .passphraseEnv
    issuer := v .issuer
    audience := v .audience
    tokenTtlMinutes := v .tokenTtlMinutes }
  session := { keyPrefix := v .keyPrefix, nonceBytes := v .nonceBytes }
  logging := { level := v .level, format := v .format }

theorem Settings.get_ofFields (v : ∀ f : Field, f.shape.Value) (f : Field) :
    f.get (ofFields v) = v f := by
  cases f <;> rfl

theorem Settings.ofFields_get (s : Settings) : ofFields (fun f => f.get s) = s := rfl

section Load

variable {formats : List Format} {disk : Files.Disk} {environment : List (String × Bytes)}
  {name : String} {base own : List (String × Raw)}

theorem keyed_fileLayer? {path : String} {layer : List (String × Raw)}
    (h : fileLayer? formats disk path = some layer) : (Raw.table layer).Keyed := by
  unfold fileLayer? at h
  split at h
  · exact Format.keyed _ h
  · cases h
    exact .table .nil fun _ he => (by cases he)

theorem fileLayer?_encode {path : String} (text : String)
    (hfile : findFile formats disk path = some (.toml, Text.Utf8.encode text))
    (htext : (Toml.read? text).isSome) :
    fileLayer? formats disk path = Toml.read? text := by
  rw [← Toml.read?_unmarked htext, ← fileText_encode, fileLayer?, hfile, Format.toml]

theorem shows_combine {layer : List (String × Raw)} (hbase : (Raw.table base).Keyed)
    (hown : (Raw.table own).Keyed) (hbaseTabled : Tabled base) (hownTabled : Tabled own)
    (henvironment : Environment.NamesFields environment)
    (hnames : layer.map Prod.fst = environment.filterMap (fun e => Environment.name? e.1))
    (hlookup : ∀ name, layer.lookup name = Environment.setting? environment name) :
    Shows (combine [base, own, layer]) (chosen base own environment) := by
  have hfields : ∀ e ∈ layer, ∃ f : Field, e.1 = f.name := by
    intro e he
    have hname : e.1 ∈ environment.filterMap fun e => Environment.name? e.1 :=
      hnames ▸ List.mem_map_of_mem he
    obtain ⟨setting, hsetting, heq⟩ := List.mem_filterMap.mp hname
    exact henvironment.field setting hsetting e.1 heq
  have h := ((Shows.empty.file hbase hbaseTabled).file hown hownTabled).putAll hfields
    (hnames ▸ henvironment.distinct)
  refine ⟨h.tables, fun f => (h.same f).trans ?_⟩
  rw [hlookup, chosen, Option.or_none]

theorem exists_layers?_chosen (hbase : fileLayer? formats disk "config/default" = some base)
    (hown : fileLayer? formats disk ("config/" ++ name) = some own) (hbaseTabled : Tabled base)
    (hownTabled : Tabled own) (henvironment : Environment.NamesFields environment) :
    ∃ layers, layers? formats disk environment name = some layers ∧
      ∀ s, decode? (combine layers) = some s ↔
        ∀ f : Field, f.ofFound? (chosen base own environment f) = some (f.get s) := by
  obtain ⟨layer, hlayer, hnames, hlookup⟩ := Environment.exists_layer? henvironment.text
  have hshows := shows_combine (keyed_fileLayer? hbase) (keyed_fileLayer? hown) hbaseTabled
    hownTabled henvironment hnames hlookup
  refine ⟨[base, own, layer], ?_, fun s => hshows.read?_eq_some_iff⟩
  rw [layers?, hbase, hown, hlayer]
  rfl

theorem load_eq_ok_iff_chosen (hbase : fileLayer? formats disk "config/default" = some base)
    (hown : fileLayer? formats disk ("config/" ++ name) = some own) (hbaseTabled : Tabled base)
    (hownTabled : Tabled own) (henvironment : Environment.NamesFields environment)
    {s : Settings} : load formats disk environment name = .ok s ↔
      (∀ f : Field, f.ofFound? (chosen base own environment f) = some (f.get s)) ∧
        s.validate = .ok () := by
  obtain ⟨layers, hlayers, hread⟩ := exists_layers?_chosen hbase hown hbaseTabled hownTabled
    henvironment
  rw [load_eq_ok_iff, hlayers]
  simp only [Option.some.injEq, exists_eq_left', hread]

theorem load_filter (formats : List Format) (disk : Files.Disk)
    (environment : List (String × Bytes)) (name : String) :
    load formats disk (environment.filter fun e => (Environment.name? e.1).isSome) name =
      load formats disk environment name := by
  rw [load, layers?, Environment.layer?_filter, ← layers?, ← load]

theorem load_of_document {text : String}
    (hdefault : findFile formats disk "config/default" = some (.toml, Text.Utf8.encode text))
    (htext : (Toml.read? text).isSome) (hown : findFile formats disk ("config/" ++ name) = none)
    (henvironment : ∀ e ∈ environment, Environment.name? e.1 = none) :
    (load formats disk environment name).toOption = (ofDocument text).toOption := by
  obtain ⟨layer, hlayer⟩ := Option.isSome_iff_exists.mp htext
  have hbase : fileLayer? formats disk "config/default" = some layer :=
    (fileLayer?_encode text hdefault htext).trans hlayer
  have hnone : fileLayer? formats disk ("config/" ++ name) = some [] := by rw [fileLayer?, hown]
  have hplain : environment.filter (fun e => (Environment.name? e.1).isSome) = [] :=
    List.filter_eq_nil_iff.mpr fun e he => by simp [henvironment e he]
  have hlayers : layers? formats disk [] name = some [layer, [], []] := by
    rw [layers?, hbase, hnone]
    rfl
  have hcombine : combine [layer, [], []] = combine [layer] := rfl
  rw [← load_filter, hplain, load, hlayers, ofDocument, hlayer]
  dsimp only [Option.bind_some]
  rw [hcombine]
  cases decode? (combine [layer]) <;> rfl

/-- Each setting is what the strongest layer says that has it: the environment, the file of the
run's name, the common file, or else the default. A run has settings just when the values chosen so
can be read and the rules accept what they make up; otherwise it fails for its settings. Variables
that are no settings change nothing, and the common file alone gives the settings of its text. -/
theorem strongest_layer_wins (formats : List Format) (disk : Files.Disk)
    (environment : List (String × Bytes)) (name : String) :
    (∀ base own, fileLayer? formats disk "config/default" = some base →
      fileLayer? formats disk ("config/" ++ name) = some own → Tabled base → Tabled own →
      Environment.NamesFields environment →
      (∀ s, load formats disk environment name = .ok s → ∀ f : Field,
        f.ofFound? (chosen base own environment f) = some (f.get s)) ∧
      ((∃ s, load formats disk environment name = .ok s) ↔ ∃ v : ∀ f : Field, f.shape.Value,
        (∀ f : Field, f.ofFound? (chosen base own environment f) = some (v f)) ∧
          (Settings.ofFields v).validate = .ok ())) ∧
    (∀ f, load formats disk environment name = .error f → f.kind = .configuration) ∧
    load formats disk (environment.filter fun e => (Environment.name? e.1).isSome) name =
      load formats disk environment name ∧
    ∀ text, findFile formats disk "config/default" = some (.toml, Text.Utf8.encode text) →
      (Toml.read? text).isSome → findFile formats disk ("config/" ++ name) = none →
      (∀ e ∈ environment, Environment.name? e.1 = none) →
      (load formats disk environment name).toOption = (ofDocument text).toOption := by
  refine ⟨fun base own hbase hown hbaseTabled hownTabled henvironment => ?_,
    fun f => kind_of_load, load_filter formats disk environment name, fun text => load_of_document⟩
  have hload {s : Settings} := load_eq_ok_iff_chosen hbase hown hbaseTabled hownTabled
    henvironment (s := s)
  refine ⟨fun s h => (hload.mp h).1, ?_⟩
  constructor
  · rintro ⟨s, h⟩
    exact ⟨fun f => f.get s, hload.mp h⟩
  · rintro ⟨v, hv, hvalid⟩
    exact ⟨.ofFields v, hload.mpr ⟨fun f => (hv f).trans
      (congrArg some (Settings.get_ofFields v f).symm), hvalid⟩⟩

end Load

section Example

def commonText : String :=
  "[cache.redis]\nurl = \"redis://common\"\nkey_prefix = \"id:\"\n[session]\nnonce_bytes = 8\n"

def liveText : String :=
  "[session]\nnonce_bytes = 24\n[cache.redis]\nurl = \"redis://live\"\n"

def liveDisk : Files.Disk := fun path =>
  if path = "config/default.toml" then .file (Text.Utf8.encode commonText)
  else if path = "config/live.toml" then .file (Text.Utf8.encode liveText)
  else .missing

def liveEnvironment : List (String × Bytes) :=
  [("Warden__Cache__Provider", Text.Utf8.encode "redis"), ("WARDEN_HASH_SECRET", [0xFF])]

def liveSettings : Settings where
  cache := { provider := "redis", redis := { url := "redis://live", keyPrefix := "id:" } }
  session := { nonceBytes := 24 }

def commonLayer : List (String × Raw) :=
  [("cache",
      .table [("redis", .table [("url", .text "redis://common"), ("key_prefix", .text "id:")])]),
    ("session", .table [("nonce_bytes", .integer 8)])]

def liveLayer : List (String × Raw) :=
  [("session", .table [("nonce_bytes", .integer 24)]),
    ("cache", .table [("redis", .table [("url", .text "redis://live")])])]

theorem names_liveEnvironment :
    Environment.name? "Warden__Cache__Provider" = some Field.provider.name ∧
      Environment.name? "WARDEN_HASH_SECRET" = none := by
  decide +kernel

theorem namesFields_liveEnvironment : Environment.NamesFields liveEnvironment where
  text := by
    intro e he hnamed
    simp only [liveEnvironment, List.mem_cons, List.not_mem_nil, or_false] at he
    rcases he with rfl | rfl
    · rw [Text.Utf8.decode?_encode, Option.isSome_some]
    · rw [names_liveEnvironment.2] at hnamed
      cases hnamed
  field := by
    intro e he name hname
    simp only [liveEnvironment, List.mem_cons, List.not_mem_nil, or_false] at he
    rcases he with rfl | rfl
    · exact ⟨.provider, Option.some.inj (hname.symm.trans names_liveEnvironment.1)⟩
    · cases names_liveEnvironment.2.symm.trans hname
  distinct := by
    simp [liveEnvironment, names_liveEnvironment]

theorem setting?_liveEnvironment (name : String) : Environment.setting? liveEnvironment name =
    if name = Field.provider.name then some (.text "redis") else none := by
  obtain ⟨hprovider, hsecret⟩ := names_liveEnvironment
  have hvalue : (Text.Utf8.decode? (Text.Utf8.encode "redis")).map Environment.value =
      some (.text "redis") := by
    rw [Text.Utf8.decode?_encode, Option.map_some]
    exact congrArg some (by cbv)
  rw [Environment.setting?, liveEnvironment, List.findSome?_cons, List.findSome?_cons, hprovider,
    hsecret, hvalue]
  by_cases h : name = Field.provider.name
  · rw [if_pos h, if_pos (congrArg some h.symm)]
  · rw [if_neg h, if_neg fun heq => h (Option.some.inj heq).symm, if_neg (by simp)]
    rfl

theorem chosen_live (f : Field) :
    f.ofFound? (chosen commonLayer liveLayer liveEnvironment f) = some (f.get liveSettings) := by
  rw [chosen, setting?_liveEnvironment]
  cases f <;> cbv

theorem read?_commonText : Toml.read? commonText = some commonLayer := by cbv

theorem read?_liveText : Toml.read? liveText = some liveLayer := by cbv

theorem withEnding_toml : withEnding "config/default" "toml" = "config/default.toml" ∧
    withEnding "config/live" "toml" = "config/live.toml" := by
  decide +kernel

theorem findFile_common : findFile Format.known liveDisk "config/default" =
    some (.toml, Text.Utf8.encode commonText) :=
  findFile_of_first rfl rfl (by rw [withEnding_toml.1, liveDisk, if_pos rfl]) _

theorem findFile_live : findFile Format.known liveDisk "config/live" =
    some (.toml, Text.Utf8.encode liveText) :=
  findFile_of_first rfl rfl
    (by rw [withEnding_toml.2, liveDisk, if_neg (by decide), if_pos rfl]) _

theorem fileLayer?_common : fileLayer? Format.known liveDisk "config/default" = some commonLayer :=
  (fileLayer?_encode commonText findFile_common (read?_commonText ▸ rfl)).trans read?_commonText

theorem fileLayer?_live : fileLayer? Format.known liveDisk "config/live" = some liveLayer :=
  (fileLayer?_encode liveText findFile_live (read?_liveText ▸ rfl)).trans read?_liveText

theorem tabled_commonLayer : Tabled commonLayer :=
  .of_sections (fun f => by
    cases f <;> simp [commonLayer, Field.path, Raw.TablesAlong, Raw.entries, List.lookup])
    (by simp [commonLayer, sections])

theorem tabled_liveLayer : Tabled liveLayer :=
  .of_sections (fun f => by
    cases f <;> simp [liveLayer, Field.path, Raw.TablesAlong, Raw.entries, List.lookup])
    (by simp [liveLayer, sections])

theorem live_settings :
    load Format.known liveDisk liveEnvironment "live" = .ok liveSettings ∧
      (load Format.known liveDisk [("WARDEN_HASH_SECRET", [0xFF])] "other").toOption =
        (ofDocument commonText).toOption := by
  constructor
  · obtain ⟨hlayers, -⟩ := strongest_layer_wins Format.known liveDisk liveEnvironment "live"
    obtain ⟨hfields, hloads⟩ := hlayers commonLayer liveLayer fileLayer?_common fileLayer?_live
      tabled_commonLayer tabled_liveLayer namesFields_liveEnvironment
    obtain ⟨s, hs⟩ := hloads.mpr ⟨fun f => f.get liveSettings, chosen_live, rfl⟩
    have hget : (fun f : Field => f.get s) = fun f => f.get liveSettings :=
      funext fun f => Option.some.inj ((hfields s hs f).symm.trans (chosen_live f))
    rw [hs, ← Settings.ofFields_get s, hget, Settings.ofFields_get]
  · have hother : (findFile Format.known liveDisk ("config/" ++ "other")).isNone = true := by
      decide +kernel
    obtain ⟨-, -, -, hdocument⟩ :=
      strongest_layer_wins Format.known liveDisk [("WARDEN_HASH_SECRET", [0xFF])] "other"
    exact hdocument commonText findFile_common (read?_commonText ▸ rfl)
      (Option.isNone_iff_eq_none.mp hother) (by simp [names_liveEnvironment])

end Example

end AuthCore.Config
