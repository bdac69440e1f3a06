import ListRepeater.Proofs.Recreation
import ListRepeater.Proofs.RowContext
import ListRepeater.Proofs.WalkTraversal
/-!
# What a request does not show

A request holds more than its pass shows: records outside the window, nodes that the walk does not
reach, the order of the template, the baseline and the spacing of the rows. Nothing of it shows in
what the pass brings forth, and nothing is carried over to a later pass. So two lists that are asked
for the same but for such parts cannot be told apart.
-/
namespace ListRepeater

namespace Walk

section Elsewhere

variable {t t' : Template} {root : WidgetId} {stop : Node → Bool}

/-- A traversal does not look at nodes that it does not visit. -/
theorem Traverses.of_visited {ids : List WidgetId} {w out : Walk} (h : Traverses t stop ids w out)
    (visited : ∀ id ∈ out.order, t'.find? id = t.find? id)
    (listed : ∀ id ∈ ids, t.find? id = none → t'.find? id = none)
    (below : ∀ id ∈ out.order, ∀ n, t.find? id = some n → stop n = false →
      ∀ child ∈ n.children, t.find? child = none → t'.find? child = none) :
    Traverses t' stop ids w out := by
  induction h with
  | done w => exact .done w
  | skip missing _ ih =>
    refine .skip (listed _ List.mem_cons_self missing) ?_
    exact ih visited (fun i hi => listed i (List.mem_cons_of_mem _ hi)) below
  | @again id _ _ _ _ found old rest ih =>
    refine .again ((visited id (rest.order_prefix.subset old)).trans found) old ?_
    exact ih visited (fun i hi => listed i (List.mem_cons_of_mem _ hi)) below
  | @halt id _ _ _ _ found fresh stops rest ih =>
    have walked := rest.order_prefix.subset (List.mem_append_right _ List.mem_cons_self)
    refine .halt ((visited id walked).trans found) fresh stops ?_
    exact ih visited (fun i hi => listed i (List.mem_cons_of_mem _ hi)) below
  | @enter id _ w w' _ n found fresh through inner rest ihInner ih =>
    have within := rest.order_prefix.subset
    have walked := within (inner.order_prefix.subset (List.mem_append_right _ List.mem_cons_self))
    have children : Traverses t' stop n.children (w.visit id) w' :=
      ihInner (fun i hi => visited i (within hi)) (below id walked n found through)
        fun i hi => below i (within hi)
    refine .enter ((visited id walked).trans found) fresh through children ?_
    exact ih visited (fun i hi => listed i (List.mem_cons_of_mem _ hi)) below

/-- Templates that define the walked nodes alike, and resolve the same references to children that
are followed, are walked alike. -/
theorem walk_congr (rooted : t'.contains root = t.contains root)
    (visited : ∀ id ∈ (walk t root stop).order, t'.find? id = t.find? id)
    (children : ∀ id ∈ (walk t root stop).order, ∀ child ∈ followed t root stop id,
      t'.contains child = t.contains child) :
    walk t' root stop = walk t root stop := by
  have dangles : ∀ {id}, t'.contains id = t.contains id → t.find? id = none →
      t'.find? id = none := by
    intro id e missing
    rw [Keyed.contains, Keyed.contains, missing] at e
    exact Option.not_isSome_iff_eq_none.mp (by simp [e])
  have follows : ∀ id ∈ (walk t root stop).order, ∀ n, t.find? id = some n →
      stopsAt t root stop id = false →
        ∀ child ∈ n.children, t.find? child = none → t'.find? child = none := by
    intro id walked n found goes child listed
    refine dangles (children id walked child ?_)
    simpa [followed, goes, found] using listed
  have traversal := traversal_walk t root stop
  refine (traversal_iff.mp ?_).symm
  generalize walk t root stop = w at visited follows traversal
  cases traversal with
  | rootless missing => exact .rootless (dangles rooted missing)
  | @rooted n _ found below =>
    have walked : root ∈ w.order := below.order_prefix.subset List.mem_cons_self
    have entered : stopsAt t root stop root = false := by simp [stopsAt]
    refine .rooted ((visited root walked).trans found) ?_
    refine below.of_visited visited (follows root walked n found entered) ?_
    intro id walked m found through
    exact follows id walked m found (by simp [stopsAt, found, through])

end Elsewhere

end Walk

open Walk

/-- The requests ask a list for the same, as far as it shows. Their keys and records may differ
outside the window, their templates in nodes that the walk does not reach and in order, and their
baselines, their spacing and who pages the records at will. -/
structure Request.ShownAlike (c : Config) (q q' : Request) : Prop where
  listName : q'.listName = q.listName
  ancestry : q'.ancestry = q.ancestry
  mount : q'.mount = q.mount
  root : q'.root = q.root
  pageNo : q'.pageNo = q.pageNo
  pageSize : q'.pageSize = q.pageSize
  scrolls : q'.scrolls = q.scrolls
  window : (Pass.ofRequest c q').window = (Pass.ofRequest c q).window
  records : (Pass.ofRequest c q').windowRecords = (Pass.ofRequest c q).windowRecords
  rooted : q'.template.contains q.root = q.template.contains q.root
  nodes : ∀ id ∈ (Pass.ofRequest c q).walk.order, q'.template.find? id = q.template.find? id
  children : ∀ id ∈ (Pass.ofRequest c q).walk.order,
    ∀ child ∈ followed q.template q.root (fun n => n.kind == c.listKind) id,
      q'.template.contains child = q.template.contains child

instance (c : Config) (q q' : Request) : Decidable (q.ShownAlike c q') :=
  decidable_of_iff
    (q'.listName = q.listName ∧ q'.ancestry = q.ancestry ∧ q'.mount = q.mount ∧ q'.root = q.root ∧
      q'.pageNo = q.pageNo ∧ q'.pageSize = q.pageSize ∧ q'.scrolls = q.scrolls ∧
      (Pass.ofRequest c q').window = (Pass.ofRequest c q).window ∧
      (Pass.ofRequest c q').windowRecords = (Pass.ofRequest c q).windowRecords ∧
      q'.template.contains q.root = q.template.contains q.root ∧
      (∀ id ∈ (Pass.ofRequest c q).walk.order, q'.template.find? id = q.template.find? id) ∧
      ∀ id ∈ (Pass.ofRequest c q).walk.order,
        ∀ child ∈ followed q.template q.root (fun n => n.kind == c.listKind) id,
          q'.template.contains child = q.template.contains child)
    ⟨fun ⟨a, b, c, d, e, f, g, h, i, j, k, l⟩ => ⟨a, b, c, d, e, f, g, h, i, j, k, l⟩,
      fun h => ⟨h.listName, h.ancestry, h.mount, h.root, h.pageNo, h.pageSize, h.scrolls, h.window,
        h.records, h.rooted, h.nodes, h.children⟩⟩

/-- What is remembered of two passes is the same for a later pass. -/
def Shown.Alike (s s' : Shown) : Prop :=
  ∃ t, s' = { s with template := t } ∧ ∀ id ∈ s.walk.order, t.find? id = s.template.find? id

/-- The outcomes are the same in all that anyone gets from them. -/
structure Outcome.ShownAlike (o o' : Outcome) : Prop where
  emission : o.emission = o'.emission
  saved : o.saved = o'.saved
  scroll : o.scroll = o'.scroll
  tells : o.next.TellsAlike o'.next

namespace Request.ShownAlike

open Pass

variable {c : Config} {q q' : Request} (h : q.ShownAlike c q')

include h

theorem pass_walk : (ofRequest c q').walk = (ofRequest c q).walk := by
  have walked := walk_congr h.rooted h.nodes h.children
  rw [ofRequest, ofRequest, h.root]
  exact walked

theorem pass_nodes : (ofRequest c q').nodes = (ofRequest c q).nodes := by
  rw [Pass.nodes, Pass.nodes, h.pass_walk]
  apply List.filterMap_congr
  intro id walked
  exact congrArg (Option.map _) (h.nodes id walked)

theorem pass_shape : (ofRequest c q').shape = (ofRequest c q).shape :=
  congrArg (List.map _) (h.pass_nodes)

theorem pass_listName : (ofRequest c q').listName = (ofRequest c q).listName :=
  congrArg (fun name => if name = "" then c.listName else name) h.listName

theorem pass_scrolls : (ofRequest c q').scrolls = (ofRequest c q).scrolls :=
  congrArg (c.scrolls || ·) h.scrolls

theorem pass_firstIndex : (ofRequest c q').firstIndex = (ofRequest c q).firstIndex := by
  have pageNo : (ofRequest c q').request.pageNo = q.pageNo := h.pageNo
  have pageSize : (ofRequest c q').request.pageSize = q.pageSize := h.pageSize
  rw [Pass.firstIndex, Pass.firstIndex, Request.firstIndex, h.pass_scrolls, pageNo, pageSize]
  rfl

theorem pass_windowRows : (ofRequest c q').windowRows = (ofRequest c q).windowRows :=
  windowRows_congr (h.pass_firstIndex) (congrArg Prod.fst h.window) h.records

theorem pass_rowCells : (ofRequest c q').rowCells = (ofRequest c q).rowCells := by
  funext row
  rw [rowCells, rowCells, h.pass_nodes]

theorem pass_cells : (ofRequest c q').cells = (ofRequest c q).cells := by
  rw [cells, cells, h.pass_windowRows, h.pass_rowCells]

theorem pass_slots : (ofRequest c q').slots = (ofRequest c q).slots :=
  congrArg (List.map _) (h.pass_cells)

theorem pass_layoutIn (b : SlotBook) :
    (ofRequest c q').layoutIn b = (ofRequest c q).layoutIn b := by
  funext row
  rw [layoutIn, layoutIn, h.pass_rowCells, h.pass_walk]
  rfl

/-- An instance is made of what the rows of the pass share and of its own row. -/
theorem pass_instanceOf : (ofRequest c q').instanceOf = (ofRequest c q).instanceOf := by
  have mount : (ofRequest c q').request.mount = (ofRequest c q).request.mount := h.mount
  have ancestry : (ofRequest c q').request.ancestry = (ofRequest c q).request.ancestry := h.ancestry
  have config : (ofRequest c q').config = (ofRequest c q).config := rfl
  funext l place record editable w
  simp only [instanceOf, parentOf, childrenOf, propsOf, locksOf, scope, item, ancestorViews,
    nestedAncestry, ancestorRow, isContainer, isNestedList, h.pass_walk, h.pass_listName, mount,
    ancestry, config]
  rfl

theorem pass_instanceIn (b : SlotBook) :
    (ofRequest c q').instanceIn b = (ofRequest c q).instanceIn b := by
  funext x
  rw [instanceIn, instanceIn, h.pass_layoutIn, h.pass_instanceOf]
  rfl

theorem pass_rowIn (b : SlotBook) : (ofRequest c q').rowIn b = (ofRequest c q).rowIn b := by
  funext row
  rw [rowIn, rowIn, h.pass_layoutIn]
  rfl

theorem pass_shownRowsIn (b : SlotBook) :
    (ofRequest c q').shownRowsIn b = (ofRequest c q).shownRowsIn b := by
  have root : (ofRequest c q').request.root = (ofRequest c q).request.root := h.root
  simp only [shownRowsIn, h.pass_windowRows, h.pass_rowIn, shownRow, root]

theorem pass_shownIn (b : SlotBook) :
    ((ofRequest c q).shownIn b).Alike ((ofRequest c q').shownIn b) := by
  have pageNo : (ofRequest c q').request.pageNo = (ofRequest c q).request.pageNo := h.pageNo
  have mount : (ofRequest c q').request.mount = (ofRequest c q).request.mount := h.mount
  have root : (ofRequest c q').request.root = (ofRequest c q).request.root := h.root
  have ancestry : (ofRequest c q').request.ancestry = (ofRequest c q).request.ancestry := h.ancestry
  refine ⟨q'.template, ?_, h.nodes⟩
  simp only [shownIn, Repeater.remember, pageNo, mount, root, ancestry, h.pass_listName,
    h.pass_walk, h.pass_shape, h.pass_shownRowsIn]
  rfl

/-- The templates are compared at walked nodes only, which the walk before reached too unless they
count as changed. -/
theorem pass_compare {shown shown' : Option Shown} (before : Option.Rel Shown.Alike shown shown') :
    (ofRequest c q').compare shown' = (ofRequest c q).compare shown := by
  have pageNo : (ofRequest c q').request.pageNo = (ofRequest c q).request.pageNo := h.pageNo
  have mount : (ofRequest c q').request.mount = (ofRequest c q).request.mount := h.mount
  have root : (ofRequest c q').request.root = (ofRequest c q).request.root := h.root
  have ancestry : (ofRequest c q').request.ancestry = (ofRequest c q).request.ancestry := h.ancestry
  have reset : (ofRequest c q').isReset shown' = (ofRequest c q).isReset shown := by
    cases before with
    | none => rfl
    | some alike =>
      obtain ⟨_, rfl, -⟩ := alike
      simp only [isReset, h.pass_scrolls, h.pass_listName, pageNo, mount, root, ancestry]
  have shape : (ofRequest c q').shapeChanged shown' = (ofRequest c q).shapeChanged shown := by
    cases before with
    | none => rfl
    | some alike =>
      obtain ⟨_, rfl, -⟩ := alike
      rw [shapeChanged, shapeChanged, h.pass_shape]
  have changed : (ofRequest c q').changed shown' = (ofRequest c q).changed shown := by
    cases before with
    | none => exact congrArg Walk.order (h.pass_walk)
    | @some s _ alike =>
      obtain ⟨t, rfl, nodes⟩ := alike
      rw [Pass.changed, Pass.changed, h.pass_walk]
      apply List.filter_congr
      intro id walked
      have own : (ofRequest c q').request.template.find? id =
          (ofRequest c q).request.template.find? id := h.nodes id walked
      cases old : s.walk.contains id with
      | false => rfl
      | true => rw [own, nodes id ((s.walk.contains_iff id).mp old)]
  have rows : (shown'.map (·.rows)).getD [] = (shown.map (·.rows)).getD [] := by
    cases before with
    | none => rfl
    | some alike =>
      obtain ⟨_, rfl, -⟩ := alike
      rfl
  rw [Pass.compare, Pass.compare, reset, shape, changed, rows, h.pass_walk]

end Request.ShownAlike

namespace Repeater

/-- The repeaters are the same for a later pass. -/
structure ShownAlike (r r' : Repeater) : Prop where
  config : r'.config = r.config
  book : r'.book = r.book
  shown : Option.Rel Shown.Alike r.shown r'.shown
  watched : r'.watched = r.watched

theorem rows_of_alike {shown shown' : Option Shown} (h : Option.Rel Shown.Alike shown shown') :
    (shown'.map fun s => s.rows) = shown.map fun s => s.rows := by
  cases h with
  | none => rfl
  | some alike =>
    obtain ⟨_, rfl, -⟩ := alike
    rfl

namespace ShownAlike

variable {r r' : Repeater} (h : r.ShownAlike r')

include h

theorem tells : r.TellsAlike r' := by
  have rows : r.shownRows = r'.shownRows := by
    rw [shownRows, shownRows, rows_of_alike h.shown]
  refine ⟨?_, ?_, ?_, ?_, ?_, ?_⟩
  · exact congrArg (fun rows => rows.flatMap (·.instanceIds)) rows
  · exact congrArg (fun rows => rows.map (·.containerId)) rows
  · exact congrArg (fun rows => rows.map (·.containerName)) rows
  · rw [h.book]
  · rw [h.book]
  · rw [h.book]

theorem pass (q : Request) : r'.pass q = r.pass q := congrArg (Pass.ofRequest · q) h.config

theorem vacated (rows : List ShownRow) :
    Repeater.vacated r'.shown rows = Repeater.vacated r.shown rows := by
  have before := congrArg (Option.map fun rows => rows.flatMap ShownRow.slots)
    (rows_of_alike h.shown)
  rw [Option.map_map, Option.map_map] at before
  exact congrArg (fun slots : Option (List Slot) => (slots.getD []).filter _) before

theorem removed (rows : List ShownRow) :
    Repeater.removed r'.shown rows = Repeater.removed r.shown rows := by
  have before := congrArg (Option.map fun rows => rows.flatMap ShownRow.instanceIds)
    (rows_of_alike h.shown)
  rw [Option.map_map, Option.map_map] at before
  exact congrArg (fun ids : Option (List WidgetId) => ((ids.getD []).filter _).eraseDups) before

variable {q q' : Request} (same : q.ShownAlike r.config q')

include same

theorem book_run : (r'.run q').next.book = (r.run q).next.book := by
  rw [Repeater.book_run r', Repeater.book_run r, h.pass, same.pass_slots, same.pass_shownRowsIn,
    h.book, h.vacated]
  exact congrArg _ (vacated_shownRowsIn _ _ _ _)

/-- One pass keeps the repeaters the same for the next one. -/
theorem run : (r.run q).next.ShownAlike (r'.run q').next where
  config := h.config
  book := h.book_run same
  shown := by
    rw [shown_run, shown_run, h.book_run same, h.pass]
    exact .some (same.pass_shownIn _)
  watched := h.watched

/-- Whatever is not shown makes no difference to the outcome of a pass. -/
theorem outcome : (r.run q).ShownAlike (r'.run q') where
  emission := by
    have instances : (r.run q).emission.instances = (r'.run q').emission.instances := by
      have rendered : (r'.pass q').emits (r'.run q').next.book ((r'.pass q').compare r'.shown) =
          (r.pass q).emits (r.run q).next.book ((r.pass q).compare r.shown) := by
        funext x
        rw [h.book_run same, h.pass, same.pass_compare h.shown, Pass.emits, same.pass_rowIn]
        rfl
      rw [instances_run, instances_run, rendered, h.book_run same, h.pass, same.pass_cells,
        Pass.instancesIn, Pass.instancesIn, same.pass_instanceIn]
    have removed : (r.run q).emission.removed = (r'.run q').emission.removed := by
      rw [removed_run, removed_run, h.book_run same, h.pass, same.pass_shownRowsIn, h.removed]
    exact congrArg₂ Emission.mk instances removed
  saved := congrArg SlotBook.snapshot (h.book_run same).symm
  scroll := by
    rw [scroll_run, scroll_run, h.pass, same.pass_scrolls, same.pass_firstIndex,
      same.pass_windowRows, h.watched]
  tells := (h.run same).tells

end ShownAlike

end Repeater

namespace Session

/-- Two runs that start from repeaters of one kind and make passes over requests that show the same
show the same in every pass. -/
theorem turns_alike {c : Config} {s s' : Session} {calls calls' : List Call}
    (config : s.repeater.config = c) (start : s.repeater.ShownAlike s'.repeater)
    (asked : List.Forall₂ (fun t t' : Turn => t.request.ShownAlike c t'.request) (s.turns calls)
      (s'.turns calls')) :
    List.Forall₂ (fun t t' : Turn => t.outcome.ShownAlike t'.outcome) (s.turns calls)
      (s'.turns calls') := by
  generalize turns : s.turns calls = ts at asked
  generalize turns' : s'.turns calls' = ts' at asked
  induction asked generalizing s s' calls calls' with
  | nil => exact .nil
  | @cons t t' _ _ same _ ih =>
    obtain ⟨follows, s₁, later, next, -, rest⟩ := first_turn turns
    obtain ⟨follows', s₁', later', next', -, rest'⟩ := first_turn turns'
    have member : t ∈ s.turns calls := turns ▸ List.mem_cons_self
    have member' : t' ∈ s'.turns calls' := turns' ▸ List.mem_cons_self
    have watched := watched_of_turn member
    have watched' := watched_of_turn member'
    have now : t.repeater.ShownAlike t'.repeater :=
      { config := by rw [follows.config, follows'.config, start.config]
        book := by rw [follows.book, follows'.book, start.book]
        shown := by
          rw [follows.shown, follows'.shown]
          exact start.shown
        watched := by rw [watched, watched', start.watched] }
    have own : t.repeater.config = c := follows.config.trans config
    have same := own ▸ same
    refine .cons (now.outcome same) (ih ?_ ?_ rest rest')
    · rw [next]
      exact own
    · rw [next, next']
      exact now.run same

/-- Two lists with one configuration and the same stored ids make passes that show the same, each
over a request of its own, and whatever these requests do not show is up to each of them: then they
bring forth, remove and save the same in every pass, and tell the same of their rows and ids. -/
theorem unshown_irrelevant (c : Config) (stored : Option Snapshot) (calls calls' : List Call)
    (asked : List.Forall₂ (fun t t' : Turn => t.request.ShownAlike c t'.request)
      ((create c stored).turns calls) ((create c stored).turns calls')) :
    List.Forall₂ (fun t t' : Turn => t.outcome.ShownAlike t'.outcome)
      ((create c stored).turns calls) ((create c stored).turns calls') :=
  turns_alike rfl ⟨rfl, rfl, .none, rfl⟩ asked

/-- Shows two pages of rows with a list in them. -/
def nestedPages : List Call :=
  let q : Request :=
    { Request.blank "" Sample.nested.mount Sample.nested.root Sample.nested.template with
      records := Sample.records
      keys := Sample.idKeys Sample.records
      pageSize := 2 }
  [.options q, .generate, .options { q with pageNo := 2 }, .generate]

/-- Shows the same pages with nothing below the list in the rows, the widgets in another order, and
other records on the page that is not shown. -/
def trimmedPages : List Call :=
  let template := Template.ofNodes (Sample.nested.template.values.take 6).reverse
  let first := Sample.records.take 2 ++ [.null]
  let second := [.null, .null] ++ Sample.records.drop 2 ++ [Sample.person 5 "Red"]
  let q : Request :=
    { Request.blank "" Sample.nested.mount Sample.nested.root template with
      records := first
      keys := Sample.idKeys first
      pageSize := 2 }
  [.options q, .generate,
    .options { q with
      pageNo := 2
      records := second
      keys := Sample.idKeys second
      baseline := Sample.simple.template },
    .generate]

theorem unshown_irrelevant_trimmedPages :
    List.Forall₂ (fun t t' : Turn => t.request.ShownAlike .standard t'.request ∧
        t.request.template.size = 12 ∧ t'.request.template.size = 6 ∧
        t.request.records ≠ t'.request.records ∧ t.rows.length = 2)
      ((create .standard none).turns nestedPages) ((create .standard none).turns trimmedPages) ∧
    List.Forall₂ (fun t t' : Turn => t.outcome.ShownAlike t'.outcome)
      ((create .standard none).turns nestedPages) ((create .standard none).turns trimmedPages) := by
  have asked : List.Forall₂ (fun t t' : Turn => t.request.ShownAlike .standard t'.request ∧
        t.request.template.size = 12 ∧ t'.request.template.size = 6 ∧
        t.request.records ≠ t'.request.records ∧ t.rows.length = 2)
      ((create .standard none).turns nestedPages)
      ((create .standard none).turns trimmedPages) := by
    decide +kernel
  exact ⟨asked, unshown_irrelevant .standard none nestedPages trimmedPages
    (asked.imp fun _ _ h => h.1)⟩

end Session

end ListRepeater
