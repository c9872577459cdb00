import Cs7000pBootloader.Flash.Progress
import Cs7000pBootloader.Dfu.Stranded
import Cs7000pBootloader.Dfu.Image
import Cs7000pBootloader.Dfu.Errors
import Cs7000pBootloader.Dfu.EraseSector
import Cs7000pBootloader.Dfu.Commands
import Cs7000pBootloader.Dfu.Align
import Cs7000pBootloader.Dfu.Ledger
import Cs7000pBootloader.Dfu.Unseen
import Cs7000pBootloader.Dfu.Reachable
import Cs7000pBootloader.Boot.Vectors
import Cs7000pBootloader.Boot.Handoff
import Cs7000pBootloader.Boot.Update
import Cs7000pBootloader.Boot.Survives
import Cs7000pBootloader.Usb.Strings
import Cs7000pBootloader.Main.Delay
import Cs7000pBootloader.Main.Loop
