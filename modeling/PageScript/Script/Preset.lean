/-!
# Demo scripts

The scripts that come with the program, each under an id.
-/

namespace PageScript.Script

structure Preset where
  id : String
  name : String
  description : String
  code : String

namespace Preset

def all : List Preset := [
  { id := "watermark"
    name := "Auto Watermarking"
    description := "Dynamically add watermarks to the document."
    code := "// Auto Watermark Script\n" ++
      "// Try changing the page number or the text!\n" ++
      "// Example: watermark page 2 text \"DRAFT\"\n" ++
      "applyWatermark(pdfDoc, 'CONFIDENTIAL');" },
  { id := "pay-to-view"
    name := "View-to-Pay Trigger"
    description := "Require payment after a certain number of views."
    code := "// View-to-Pay Trigger Script\n" ++
      "// This script simulates locking pages and creating a payment session.\n" ++
      "// Try changing the price! e.g., \"unlock for $10\"\n" ++
      "unlock pages for $5;" },
  { id := "time-unlock"
    name := "Time-Based Unlocking"
    description := "Unlock pages after a specific time."
    code := "// Time-Based Page Unlocking Script\n" ++
      "// This is a placeholder for a future feature.\n" ++
      "unlock page 5 at timestamp 1672531200;" },
  { id := "ai-qa"
    name := "AI Q&A on Content"
    description := "Enable AI to answer questions about the doc."
    code := "// AI Q&A Script\n" ++
      "// This script simulates minting an NFT of the document.\n" ++
      "// The interpreter picks up \"mint\" and records it on the mock chain.\n" ++
      "mint nft of this document version;" }]

def find? (id : String) : Option Preset :=
  all.find? (·.id = id)

end Preset

end PageScript.Script
