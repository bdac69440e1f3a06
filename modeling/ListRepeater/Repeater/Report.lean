import ListRepeater.Repeater.Basic
import ListRepeater.Text.Quoted
/-!
# Reports on the state of a repeater

One-line texts for logs that show the fixed data of a repeater and counts of the rest.
-/
namespace ListRepeater

open Text (quoted listed record mapping)

def Mode.name : Mode → String
  | .canvas => "Canvas"
  | .page => "Page"

def Exposure.report (x : Exposure) : String :=
  record "EntityDefinitions" [("by_kind", mapping (x.byKind.entries.map fun e =>
    (quoted e.1, listed (e.2.map quoted))))]

def Config.report (c : Config) : String :=
  record "GeneratorConfig"
    [("level", decimal c.level), ("render_mode", c.mode.name),
     ("prefix_meta_widget_id", quoted c.stem), ("primary_widget_type", quoted c.listKind),
     ("widget_name", quoted c.listName), ("infinite_scroll", flagText c.scrolls),
     ("is_list_cloned", flagText c.cloned), ("entity_definitions", c.exposure.report)]

def SlotBook.report (b : SlotBook) : String :=
  record "IdentityCache"
    [("prefix", quoted b.stem), ("slots", decimal b.slotCount),
     ("released", decimal b.parkedCount), ("next_seq", decimal b.minted)]

def Repeater.report (r : Repeater) : String :=
  record "MetaWidgetGenerator"
    [("config", r.config.report), ("identity", r.book.report),
     ("has_options", flagText r.request.isSome), ("rendered_rows", decimal r.shownRows.length),
     ("has_scroll_callback", flagText r.watched)]

end ListRepeater
