import FreeBox.Storage.Plugins

/-!
# The plugin registry

Model of the trait `Plugin` and of `PluginRegistry` in `packages/core/src/plugin.rs`. A
plugin acts on the world `W`, in which its own state is, and is given the context `Ctx`.

The documentation of `on_load` says that a plugin whose `on_load` returns an error is
disabled. The registry does not remember which plugins were loaded.

Results:
* `loadAll_calls`, `unloadAll_calls`: every plugin is loaded and unloaded.
* `storageProvider_eq_iff`: when the first plugin that claims to be a storage provider is
  the first that hands one out.
* `failed_plugins_disabled_iff`: when failed plugins are left out.
-/

namespace FreeBox.Storage

variable {ε Ctx W : Type}

/-- `plugin::Plugin`. -/
structure Plugin (ε Ctx W : Type) where
  onLoad : Ctx → W → Except ε Unit × W
  onUnload : W → Except ε Unit × W
  isStorageProvider : W → Bool
  asStorageProvider : W → Option StorageProvider

/-- `plugin::PluginRegistry`. -/
structure PluginRegistry (ε Ctx W : Type) where
  plugins : List (Plugin ε Ctx W)

/-- What a loop over the plugins returns: its result, the calls that it has made, by the
position of the plugin and with the outcome, and the world. -/
structure Calls (ε W : Type) where
  result : Except ε Unit
  calls : List (ℕ × Except ε Unit)
  world : W

/-- The calls of a loop that goes on after errors. -/
def callAll (call : Plugin ε Ctx W → W → Except ε Unit × W) :
    List (Plugin ε Ctx W × ℕ) → W → List (ℕ × Except ε Unit) × W
  | [], w => ([], w)
  | (plugin, i) :: plugins, w =>
    let (outcome, w) := call plugin w
    let (calls, w) := callAll call plugins w
    ((i, outcome) :: calls, w)

namespace PluginRegistry

/-- `PluginRegistry::new`. -/
def new : PluginRegistry ε Ctx W := ⟨[]⟩

/-- `PluginRegistry::register`. -/
def register (registry : PluginRegistry ε Ctx W) (plugin : Plugin ε Ctx W) :
    PluginRegistry ε Ctx W := ⟨registry.plugins ++ [plugin]⟩

/-- `PluginRegistry::storage_provider`. -/
def storageProvider (registry : PluginRegistry ε Ctx W) (w : W) : Option StorageProvider :=
  (registry.plugins.find? fun p => p.isStorageProvider w).bind fun p => p.asStorageProvider w

/-- `PluginRegistry::load_all`: an error of a plugin is logged. -/
def loadAll (registry : PluginRegistry ε Ctx W) (ctx : Ctx) (w : W) : Calls ε W :=
  let (calls, w) := callAll (fun plugin => plugin.onLoad ctx) registry.plugins.zipIdx w
  { result := .ok (), calls, world := w }

/-- `PluginRegistry::unload_all`. -/
def unloadAll (registry : PluginRegistry ε Ctx W) (w : W) : Calls ε W :=
  let (calls, w) := callAll Plugin.onUnload registry.plugins.zipIdx.reverse w
  { result := .ok (), calls, world := w }

end PluginRegistry

/-- The registry of the plugins that were registered one after another. -/
def registered (plugins : List (Plugin ε Ctx W)) : PluginRegistry ε Ctx W :=
  plugins.foldl PluginRegistry.register .new

/-- What a plugin hands out to the kernel, which asks for it only when the plugin says
that it is a storage provider. -/
def Plugin.offers (plugin : Plugin ε Ctx W) (w : W) : Option StorageProvider :=
  if plugin.isStorageProvider w then plugin.asStorageProvider w else none

/-- The plugin at a position was called and returned no error. -/
def Calls.succeeded (calls : Calls ε W) (i : ℕ) : Bool :=
  calls.calls.any fun call => decide (call.1 = i) && call.2.isOk

variable {plugins : List (Plugin ε Ctx W)} {ctx : Ctx} {w : W}

/-! ## The calls of the loops -/

theorem plugins_registered (plugins : List (Plugin ε Ctx W)) :
    (registered plugins).plugins = plugins := by
  induction plugins using List.reverseRecOn with
  | nil => rfl
  | append_singleton plugins plugin ih =>
    rw [registered, List.foldl_append] at *
    show (plugins.foldl PluginRegistry.register .new).plugins ++ [plugin] = plugins ++ [plugin]
    rw [ih]

/-- Each plugin of the list is called once. -/
theorem map_fst_callAll (call : Plugin ε Ctx W → W → Except ε Unit × W)
    (list : List (Plugin ε Ctx W × ℕ)) (w : W) :
    (callAll call list w).1.map Prod.fst = list.map Prod.snd := by
  induction list generalizing w with
  | nil => rfl
  | cons entry list ih =>
    show entry.2 :: (callAll call list (call entry.1 w).2).1.map Prod.fst = _
    rw [ih, List.map_cons]

theorem loadAll_calls (plugins : List (Plugin ε Ctx W)) (ctx : Ctx) (w : W) :
    ((registered plugins).loadAll ctx w).calls.map Prod.fst = List.range plugins.length := by
  show (callAll _ (registered plugins).plugins.zipIdx w).1.map Prod.fst = _
  rw [map_fst_callAll, plugins_registered, List.zipIdx_map_snd, List.range_eq_range']

theorem unloadAll_calls (plugins : List (Plugin ε Ctx W)) (w : W) :
    ((registered plugins).unloadAll w).calls.map Prod.fst =
      (List.range plugins.length).reverse := by
  show (callAll _ (registered plugins).plugins.zipIdx.reverse w).1.map Prod.fst = _
  rw [map_fst_callAll, plugins_registered, List.map_reverse, List.zipIdx_map_snd,
    List.range_eq_range']

/-- All plugins were loaded exactly when no call failed. -/
theorem forall_succeeded_iff :
    (∀ i < plugins.length, ((registered plugins).loadAll ctx w).succeeded i = true) ↔
      ∀ call ∈ ((registered plugins).loadAll ctx w).calls, call.2.isOk = true := by
  have hcalls := loadAll_calls plugins ctx w
  set calls := (registered plugins).loadAll ctx w with hdef
  have hnodup : (calls.calls.map Prod.fst).Nodup := hcalls ▸ List.nodup_range
  constructor
  · intro h call hcall
    have hi : call.1 < plugins.length := by
      rw [← List.mem_range, ← hcalls]
      exact List.mem_map_of_mem hcall
    obtain ⟨call', hcall', hok⟩ := List.any_eq_true.mp (h call.1 hi)
    simp only [Bool.and_eq_true, decide_eq_true_eq] at hok
    have hsame : call' = call := List.inj_on_of_nodup_map hnodup hcall' hcall hok.1
    rw [← hsame]
    exact hok.2
  · intro h i hi
    rw [← List.mem_range, ← hcalls] at hi
    obtain ⟨call, hcall, rfl⟩ := List.mem_map.mp hi
    refine List.any_eq_true.mpr ⟨call, hcall, ?_⟩
    simp [h call hcall]

/-! ## The storage provider -/

/-- The first plugin that claims to be a storage provider decides for all of them. -/
theorem storageProvider_eq_iff (plugins : List (Plugin ε Ctx W)) (w : W) :
    (registered plugins).storageProvider w = plugins.findSome? (fun p => p.offers w) ↔
      (∀ p ∈ plugins.find? (fun p => p.isStorageProvider w), p.asStorageProvider w ≠ none) ∨
        ∀ p ∈ plugins, p.offers w = none := by
  rw [PluginRegistry.storageProvider, plugins_registered]
  induction plugins with
  | nil => simp
  | cons p plugins ih =>
    by_cases hclaims : p.isStorageProvider w = true
    · have hfind : (p :: plugins).find? (fun p => p.isStorageProvider w) = some p := by
        simp [hclaims]
      have hoffers : p.offers w = p.asStorageProvider w := if_pos hclaims
      rw [hfind, List.findSome?_cons, hoffers, List.forall_mem_cons, hoffers]
      cases hprovider : p.asStorageProvider w with
      | none => simp [hprovider, eq_comm (a := none)]
      | some provider => simp [hprovider]
    · have hfind : (p :: plugins).find? (fun p => p.isStorageProvider w) =
          plugins.find? (fun p => p.isStorageProvider w) := by
        simp [hclaims]
      have hoffers : p.offers w = none := if_neg hclaims
      rw [hfind, List.findSome?_cons, hoffers, List.forall_mem_cons, ih]
      simp [hoffers]

/-- After `load_all` the storage provider is that of the first plugin that was loaded and
hands one out, and `unload_all` unloads the plugins that were loaded, exactly when every
plugin was loaded and the first one that claims to be a storage provider hands one out or
there is none to be handed out. -/
theorem failed_plugins_disabled_iff (plugins : List (Plugin ε Ctx W)) (ctx : Ctx)
    (w w₁ w₂ : W) :
    ((registered plugins).storageProvider w₁ =
        plugins.zipIdx.findSome? (fun (p, i) =>
          if ((registered plugins).loadAll ctx w).succeeded i then p.offers w₁ else none) ∧
      ((registered plugins).unloadAll w₂).calls.map Prod.fst =
        ((List.range plugins.length).filter
          ((registered plugins).loadAll ctx w).succeeded).reverse) ↔
    (∀ call ∈ ((registered plugins).loadAll ctx w).calls, call.2.isOk = true) ∧
      ((∀ p ∈ plugins.find? (fun p => p.isStorageProvider w₁), p.asStorageProvider w₁ ≠ none) ∨
        ∀ p ∈ plugins, p.offers w₁ = none) := by
  have hunload : ((registered plugins).unloadAll w₂).calls.map Prod.fst =
      ((List.range plugins.length).filter
        ((registered plugins).loadAll ctx w).succeeded).reverse ↔
      ∀ call ∈ ((registered plugins).loadAll ctx w).calls, call.2.isOk = true := by
    rw [unloadAll_calls, List.reverse_inj, eq_comm, List.filter_eq_self, ← forall_succeeded_iff]
    simp only [List.mem_range]
  rw [hunload, and_comm, ← storageProvider_eq_iff]
  refine and_congr_right fun hloaded => ?_
  have hall := forall_succeeded_iff.mpr hloaded
  have hfind : plugins.zipIdx.findSome? (fun (p, i) =>
      if ((registered plugins).loadAll ctx w).succeeded i then p.offers w₁ else none) =
        plugins.findSome? fun p => p.offers w₁ := by
    conv_rhs => rw [← List.zipIdx_map_fst 0 plugins, List.findSome?_map]
    rw [← List.head?_filterMap, ← List.head?_filterMap]
    refine congrArg List.head? (List.filterMap_congr fun entry hentry => ?_)
    have hi : entry.2 < plugins.length := List.snd_lt_of_mem_zipIdx hentry
    exact if_pos (hall entry.2 hi)
  rw [hfind]

/-- The S3 plugin without a bucket in the configuration. -/
def unconfigured : Plugin String Unit Unit where
  onLoad _ w := (.error "required key `bucket` not found", w)
  onUnload w := (.ok (), w)
  isStorageProvider _ := true
  asStorageProvider _ := some s3Plugin

def configured : Plugin String Unit Unit where
  onLoad _ w := (.ok (), w)
  onUnload w := (.ok (), w)
  isStorageProvider _ := true
  asStorageProvider _ := some localPlugin

/-- The plugin that failed hands out the storage provider, and it is unloaded. -/
theorem failed_plugin_used :
    (((registered [unconfigured, configured]).storageProvider ()).map StorageProvider.id =
        some "storage-s3" ∧
      (([unconfigured, configured].zipIdx.findSome? fun (p, i) =>
        if ((registered [unconfigured, configured]).loadAll () ()).succeeded i
        then p.offers () else none).map StorageProvider.id) = some "storage-local") ∧
      ((registered [unconfigured, configured]).unloadAll ()).calls.map Prod.fst = [1, 0] ∧
      ((List.range 2).filter
        ((registered [unconfigured, configured]).loadAll () ()).succeeded).reverse = [1] := by
  decide

end FreeBox.Storage
